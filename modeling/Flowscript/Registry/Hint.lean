import Flowscript.Choice
import Flowscript.ModulePath
import Flowscript.NodeInfo
import Flowscript.Registry.Basic

/-!
# Type hints

The type of an input or output, and the text that stands for it in a declaration. A choice between
values becomes an enumeration, unless it is between yes and no; an enumeration is attached to its
node, and some are shared between nodes.
-/

namespace Flowscript

structure Modules where
  find : String → Option String
  /-- A module that was found can be imported. -/
  importable : String → Bool

def Modules.none : Modules := ⟨fun _ => Option.none, fun _ => false⟩

/-- The node that is being registered. -/
structure Scope where
  info : Value
  classId : String
  modules : Modules

structure Findings where
  attached : List (String × Enumeration)
  enumStubs : String
  defaults : List (String × Value)

structure Hint where
  type : TypeRef
  text : String
  default : Option String

abbrev Hinting := StateT Findings Registering

namespace Hinting

def check {α : Type} (result : Except Fault α) : Hinting α :=
  StateT.lift (Registering.check result)

def note (line : String) : Hinting Unit := StateT.lift (Registering.note line)

def registry : Hinting Registry := StateT.lift get

def update (f : Registry → Registry) : Hinting Unit := StateT.lift (modify f)

def attach (id : String) (e : Enumeration) (stub : String) : Hinting Unit :=
  modify fun f => { f with
    attached := Table.put id e f.attached, enumStubs := f.enumStubs ++ "\n" ++ stub }

def keyByName (values : List Value) : Except Fault (List (String × Value)) :=
  values.foldlM (fun acc v => match v.text? with
    | some s => .ok (Value.put (modelName s) v acc)
    | none => .error .missingField) []

/-- The shared enumeration for the values of an input: a node that defines one (re)defines it,
any other finds one that has the same values. -/
def shared? (scope : Scope) (name : String) (values : Value) :
    Hinting (Option (String × Enumeration)) := do
  let nodeName ← check (scope.info.entry "name")
  match nodeName.text?.bind fun n => Registry.sharedId? n name with
  | some id =>
    let (stub, e) ← check do Enumeration.ofTexts id "" (← keyByName (← values.iterate))
    update fun r => { r.setVar id (.enumeration e) with
      sharedStubs := Table.put id stub r.sharedStubs
      sharedValues := Table.put id values r.sharedValues }
    return some (id, e)
  | none =>
    let r ← registry
    if (← check values.length) == 0 then return none
    match r.sharedValues.find? fun (_, old) => old == values with
    | none => return none
    | some (id, _) => match Table.find? id r.vars with
      | some (.enumeration e) => return some (id, e)
      | _ => return none

/-- The first `n` items, or all but the last `-n`. -/
def takeInt {α : Type} (n : Int) (items : List α) : List α :=
  if 0 ≤ n then items.take n.toNat else items.take (items.length - (-n).toNat)

def textValues (place : String) (values : List Value) : Hinting (List (String × Value)) :=
  values.foldlM (fun acc v => match v.text? with
    | some s => return Value.put (modelName s) v acc
    | none => do
      note ("ComfyScript: " ++ place ++ ": Invalid enum value: " ++ v.text)
      return acc) []

def margin : String := "    "

def enumerationOf (place id : String) (values : List Value) (shown : String) :
    Hinting (String × Enumeration) := do
  match values with
  | [] => throw .outOfRange
  | first :: _ => match first with
    | .str _ => check (Enumeration.ofTexts id margin (← textValues place values))
    | .int _ | .bool _ => check (Enumeration.ofWholes id margin values)
    | .float _ => check (Enumeration.ofDecimals id margin values)
    | _ =>
      note ("ComfyScript: " ++ place ++ ": Invalid enum type: " ++ shown)
      check (Enumeration.ofTexts id margin [])

def limit (place : String) (values : List Value) : Hinting (List Value) := do
  let most := (← registry).maxEnumValues
  if values.length > most then
    note ("ComfyScript: " ++ place ++ ": Too many enum values: " ++
      Value.intText values.length ++ ", truncating to " ++ Value.intText most)
    return takeInt most values
  else return values

def choiceHint (scope : Scope) (name id : String) (choice : Value) :
    Hinting (TypeRef × String × List Value) := do
  let values ← check choice.iterate
  match ← shared? scope name choice with
  | some (sharedId, e) =>
    attach id e (margin ++ id ++ " = " ++ sharedId ++ "\n")
    return (.enumeration e, sharedId, values)
  | none =>
    let place := (← check (scope.info.entry "name")).text ++ "." ++ name
    if values.isEmpty then
      let (stub, e) ← check (Enumeration.ofTexts id margin [])
      attach id e stub
      return (.enumeration e, scope.classId ++ "." ++ id, [])
    else
      let values ← limit place values
      let shown := match choice with
        | .tuple _ => (Value.tuple values).text
        | _ => (Value.list values).text
      let (stub, e) ← enumerationOf place id values shown
      attach id e stub
      return (.enumeration e, scope.classId ++ "." ++ id, values)

def basicType? (type : Value) : Option String :=
  if type == .str "INT" then some "int"
  else if type == .str "FLOAT" then some "float"
  else if type == .str "STRING" then some "str"
  else if type == .str "BOOLEAN" then some "bool"
  else none

/-- A dotted name as a type: the module that holds it is imported. -/
def dottedHint (scope : Scope) (name : String) : Hinting (TypeRef × String) := do
  match scope.modules.find name with
  | some m =>
    if scope.modules.importable m then
      let package := (m.splitOn ".").headD m
      update fun r => r.setVar package (.module package)
    else note ("ComfyScript: Failed to import " ++ m ++ ": <error>")
    update fun r => { r with
      imports := r.imports.map fun ms => if ms.contains m then ms else ms ++ [m] }
    return (.nothing, name)
  | none => return (.nothing, ".".intercalate ((name.splitOn ".").map Identifier.raw))

def dataType (type : Value) : Hinting TypeRef := do
  let raw ← check (Identifier.nameOf type)
  match ← StateT.lift (Registering.claim raw) with
  | .inl t => return t
  | .inr id =>
    let t := TypeRef.data id raw
    update fun r => { r with dataStubs := Table.put id ("class " ++ id ++ ": ...") r.dataStubs }
    StateT.lift (Registering.bind raw id t)
    return t

def dataHint (scope : Scope) (name : String) (type : Value) : Hinting (TypeRef × String) := do
  if (← registry).imports.isSome && name.toList.contains '.' then dottedHint scope name
  else
    let t ← dataType type
    match t.name? with
    | some text => return (t, text)
    | none => throw .missingField

def typeHint (scope : Scope) (isOutput : Bool) (name id : String) (type : Value) :
    Hinting (TypeRef × String × Value) := do
  match type with
  | .list _ | .tuple _ =>
    if ← check (Choice.isYesNo type) then
      return (.basic "bool", "bool", .bool (← check (Choice.startsWithYes type)))
    else
      let (t, text, values) ← choiceHint scope name id type
      return (t, text, values.headD .null)
  | type =>
    if type == .str "*" then return (if isOutput then .anyOutput else .basic "Any", "Any", .null)
    match (if isOutput then none else basicType? type) with
    | some basic => return (.basic basic, basic, .null)
    | none =>
      let (t, text) ← dataHint scope name type
      return (t, text, .null)

def widened (t : TypeRef) (text : String) : String :=
  if t.isEnumeration then text ++ " | str" else text

def output (scope : Scope) (name type : Value) : Hinting Hint := do
  let name ← check (Identifier.nameOf name)
  let (t, text, _) ← typeHint scope true name (Identifier.raw name) type
  return ⟨t, widened t text, none⟩

/-- The hint of an input: its default value is the configured one, or else the one that its type
suggests. An optional input may be left out. -/
def input (scope : Scope) (name : String) (isOptional : Bool) (configured type : Value) :
    Hinting Hint := do
  let id := Identifier.raw name
  let (t, text, suggested) ← typeHint scope false name id type
  let text := widened t text
  let text := if isOptional then text ++ " | None" else text
  let value := match configured with
    | .null => suggested
    | v => v
  match value with
  | .null => return ⟨t, text, if isOptional then some "None" else none⟩
  | v =>
    modify fun f => { f with defaults := Value.put id v f.defaults }
    return ⟨t, text, some (Literal.ofValue v)⟩

end Hinting

end Flowscript
