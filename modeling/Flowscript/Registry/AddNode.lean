import Flowscript.Registry.Stub
import Flowscript.Server

/-!
# Registering nodes

A node is registered from its description: its inputs become parameters with hints, its outputs
become types, and its declaration is kept.
-/

namespace Flowscript

namespace Hinting

/-- The type of an input and its configuration; a configuration that is none is noted. -/
def readInput (scope : Scope) (id : String) (declared : Value)
    (configs : List (String × List (String × Value))) :
    Hinting (Value × List (String × Value) × List (String × List (String × Value))) := do
  match declared with
  | .str _ => return (declared, [], configs)
  | _ =>
    let type ← check (declared.item (.int 0))
    if (← check declared.length) ≤ 1 then return (type, [], configs)
    match ← check (declared.item (.int 1)) with
    | .dict config => return (type, config, Table.put id config configs)
    | config =>
      if config.truthy then
        note ("ComfyScript: Invalid config: " ++ config.text ++ " " ++ scope.info.text)
      return (type, [], Table.put id [] configs)

structure Inputs where
  parameters : List Parameter
  configs : List (String × List (String × Value))

def addInput (scope : Scope) (isOptional : Bool) (inputs : Inputs) (name : String)
    (declared : Value) : Hinting Inputs := do
  let id := Identifier.raw name
  let (type, config, configs) ← readInput scope id declared inputs.configs
  let h ← input scope name isOptional ((Value.lookup "default" config).getD .null) type
  return ⟨inputs.parameters ++ [⟨id, h.text, h.default⟩], configs⟩

def groups (hidden : Bool) : List (String × Bool) :=
  [("required", false), ("optional", true)] ++ if hidden then [("hidden", true)] else []

def readInputs (scope : Scope) : Hinting Inputs := do
  (groups (← registry).hiddenInputs).foldlM (fun inputs (group, isOptional) => do
    match ← check (NodeInfo.group? scope.info group) with
    | none => return inputs
    | some g => (← check g.entries).foldlM (fun inputs (name, declared) =>
        addInput scope isOptional inputs name declared) inputs) ⟨[], []⟩

/-- The types of outputs with their names; an output without a name is named after its type. -/
def outputNames (info : Value) : Except Fault (List (Value × Value)) := do
  let named ← (← info.entry "output_name").iterate
  let names ← named.zipIdx.mapM fun (name, i) => match name with
    | .null => do (← info.entry "output").item (.int i)
    | name => .ok name
  let types ← (← info.entry "output").iterate
  .ok (types.zip (names ++ types.drop names.length))

def readOutputs (scope : Scope) : Hinting (List TypeRef × String) := do
  let outputs ← check (outputNames scope.info)
  let types ← outputs.mapM fun (type, name) => do return (← output scope name type).type
  let texts ← outputs.mapM fun (type, name) => do return (← output scope name type).text
  return (types, match texts with
    | [] => ""
    | [text] => " -> " ++ text
    | texts => " -> tuple[" ++ ", ".intercalate texts ++ "]")

def readNode (scope : Scope) : Hinting (String × List TypeRef) := do
  let inputs ← readInputs scope
  let (types, result) ← readOutputs scope
  let doc ← check
    (documentation scope.info scope.classId inputs.parameters result inputs.configs)
  return (declaration scope.classId doc inputs.parameters result (← get).enumStubs, types)

end Hinting

namespace Registering

/-- Registers a node; `make` tells the class of what stands for the node. -/
def addNode (modules : Modules)
    (make : NodeEntry → Except Fault (Option String)) (info : Value) : Registering Unit := do
  let name ← check do Identifier.nameOf (← info.entry "name")
  match ← claim name with
  | .inl _ => note ("ComfyScript: Node already exists: " ++ info.text)
  | .inr classId =>
    let ((stub, types), findings) ← (Hinting.readNode ⟨info, classId, modules⟩).run ⟨[], "", []⟩
    modify fun r => { r with nodeStubs := r.nodeStubs ++ [stub] }
    let entry : NodeEntry := ⟨info, findings.defaults, types, findings.attached⟩
    let className ← check (make entry)
    bind name classId (.node name className)
    modify fun r => { r with nodes := Table.put name entry r.nodes }

def embeddingsId : String := "Embeddings"

def embeddingMark : String := "embedding:"

def setEmbeddings (embeddings : Value) : Registering Unit := do
  let items ← check do (← embeddings.iterate).foldlM (fun acc v =>
    if !v.hashable then .error .wrongKind
    else match v.text? with
      | some s => .ok (Value.put s (.str (embeddingMark ++ s)) acc)
      | none => .error (.notText v)) []
  let (stub, e) ← check (Enumeration.ofTexts embeddingsId "" items)
  if e.members.any fun m => m.name == "name" then throw .missingField
  modify fun r => { r.setVar embeddingsId (.enumeration e) with
    sharedStubs := Table.put embeddingsId (stub ++ "\n    def name(self) -> str: ...\n") r.sharedStubs
    sharedValues := Table.put embeddingsId embeddings r.sharedValues }

def ownText (e : Fault) : String :=
  match e.message with
  | some m => if m.startsWith "ComfyScript: " then m else "<error>"
  | none => "<error>"

def addEmbeddings (embeddings : Except Fault Value) : Registering Unit :=
  tryCatch (do setEmbeddings (← check embeddings)) fun e =>
    note ("ComfyScript: Failed to get embeddings: " ++ ownText e)

end Registering

namespace Registry

def embeddingNames (r : Registry) : Option (List String) :=
  match Table.find? Registering.embeddingsId r.vars with
  | some (.enumeration e) => some (e.members.map fun m =>
      String.ofList (m.value.text.toList.drop Registering.embeddingMark.length))
  | _ => none

def header (r : Registry) : String :=
  let lines (texts : List String) : String := "\n".intercalate texts ++ "\n\n"
  "from __future__ import annotations\nfrom typing import Any\n" ++
    "from enum import Enum as StrEnum, IntEnum, Enum as FloatEnum\n\n" ++
    (match r.imports with
    | some ms => lines (ms.map ("import " ++ ·))
    | none => "") ++
    lines (r.dataStubs.map Prod.snd) ++ lines (r.sharedStubs.map Prod.snd)

def typeStubs (r : Registry) : String := r.header ++ "\n".intercalate r.nodeStubs

end Registry

end Flowscript
