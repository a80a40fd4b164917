import Flowscript.NodeInfo

/-!
# Workflow documents from prompts

A prompt maps node ids to their types and inputs, where a list `[node, slot]` stands for an output
of another node. A workflow document holds the same graph with numbered links: each link is named
by the input that it ends in and by the output that it starts from.
-/

namespace Flowscript.Workflow

structure DraftInput where
  name : String
  type : Value
  source : Value

structure DraftOutput where
  name : Value
  type : Value
  links : List Nat

structure DraftNode where
  id : String
  type : Value
  inputs : List DraftInput
  outputs : List DraftOutput
  widgets : List (String × Value)

structure DraftLink where
  id : Nat
  source : Value
  sourceSlot : Value
  target : String
  targetSlot : Nat
  type : Value

def pairs (v : Value) : Except Fault (List (String × Value)) :=
  match v with
  | .dict entries => .ok entries
  | v => do
    (← v.iterate).mapM fun pair => do
      match ← pair.iterate with
      | [k, x] => if k.hashable then .ok (k.text, x) else .error .wrongKind
      | _ => .error .badValue

def addGroup (info : Value) (all : List (String × Value)) (name : String) :
    Except Fault (List (String × Value)) := do
  match ← (← info.entry "input").get name with
  | none => .ok all
  | some group => if group.truthy then .ok (Value.merge all (← pairs group)) else .ok all

def declaredInputs (info : Value) : Except Fault (List (String × Value)) :=
  NodeInfo.positionalGroups.foldlM (addGroup info) []

def splitInput (declared : List (String × Value))
    (parts : List DraftInput × List (String × Value)) (input : String × Value) :
    Except Fault (List DraftInput × List (String × Value)) := do
  match input.2 with
  | .list _ => match Value.lookup input.1 declared with
    | some config => .ok (⟨input.1, ← config.item (.int 0), input.2⟩ :: parts.1, parts.2)
    | none => .error .missingKey
  | _ => .ok (parts.1, Value.put input.1 input.2 parts.2)

def splitInputs (declared : List (String × Value)) (inputs : List (String × Value)) :
    Except Fault (List DraftInput × List (String × Value)) := do
  let parts ← inputs.foldlM (splitInput declared) ([], [])
  .ok (parts.1.reverse, parts.2)

def draftOutput (info : Value) (i : Nat) : Except Fault DraftOutput := do
  let name ← (← info.entry "output_name").item (.int i)
  .ok ⟨name, ← (← info.entry "output").item (.int i), []⟩

def draftOutputs (info : Value) : Except Fault (List DraftOutput) := do
  let count ← (← info.entry "output").length
  (List.range count).mapM (draftOutput info)

def draftNode (nodesInfo : Value) (id : String) (node : Value) : Except Fault DraftNode := do
  let type ← node.entry "class_type"
  let info ← nodesInfo.item type
  let declared ← declaredInputs info
  let parts ← splitInputs declared (← (← node.entry "inputs").entries)
  .ok ⟨id, type, parts.1, ← draftOutputs info, parts.2⟩

def addLink (outputs : List DraftOutput) (slot : Value) (link : Nat) :
    Except Fault (List DraftOutput) :=
  match slot.index? with
  | none => .error .wrongKind
  | some i => match Value.position? outputs.length i with
    | none => .error .outOfRange
    | some k => .ok (outputs.modify k fun o => { o with links := o.links ++ [link] })

def addLinkAt (nodes : List DraftNode) (source slot : Value) (link : Nat) :
    Except Fault (List DraftNode) :=
  if !source.hashable then .error .wrongKind
  else match source.text? with
    | none => .error .missingKey
    | some id =>
      if nodes.any fun n => n.id == id then
        nodes.mapM fun n =>
          if n.id == id then do .ok { n with outputs := ← addLink n.outputs slot link } else .ok n
      else .error .missingKey

def link (state : List DraftNode × List DraftLink) (target : String) (slot : Nat)
    (input : DraftInput) : Except Fault (List DraftNode × List DraftLink) := do
  let source ← input.source.item (.int 0)
  let sourceSlot ← input.source.item (.int 1)
  let nodes ← addLinkAt state.1 source sourceSlot state.2.length
  .ok (nodes, state.2 ++ [⟨state.2.length, source, sourceSlot, target, slot, input.type⟩])

def linkNode (state : List DraftNode × List DraftLink) (node : DraftNode) :
    Except Fault (List DraftNode × List DraftLink) :=
  node.inputs.zipIdx.foldlM (fun state entry => link state node.id entry.2 entry.1) state

def linkAll (nodes : List DraftNode) : Except Fault (List DraftNode × List DraftLink) :=
  nodes.foldlM linkNode (nodes, [])

def inputValues (next : Nat) (inputs : List DraftInput) : List Value :=
  inputs.zipIdx.map fun (input, i) =>
    .dict [("name", .str input.name), ("type", input.type), ("link", .int (next + i))]

def DraftOutput.toValue (o : DraftOutput) : Value :=
  .dict [("name", o.name), ("type", o.type), ("links", .list (o.links.map fun (l : Nat) => .int l))]

def DraftNode.toValue (order next : Nat) (n : DraftNode) : Value :=
  .dict [
    ("id", .str n.id),
    ("type", n.type),
    ("pos", .list [.int (order * 150), .int 0]),
    ("size", .dict [("0", .int 100), ("1", .int 100)]),
    ("flags", .dict []),
    ("order", .int order),
    ("mode", .int 0),
    ("inputs", .list (inputValues next n.inputs)),
    ("outputs", .list (n.outputs.map DraftOutput.toValue)),
    ("properties", .dict []),
    ("widgets_values", .dict n.widgets)]

def nodeValues : Nat → Nat → List DraftNode → List Value
  | _, _, [] => []
  | order, next, n :: rest =>
    n.toValue order next :: nodeValues (order + 1) (next + n.inputs.length) rest

def DraftLink.toValue (l : DraftLink) : Value :=
  .list [.int l.id, l.source, l.sourceSlot, .str l.target, .int l.targetSlot, l.type]

def version : Value := .float (Binary64.ofDecimal false 4 (-1))

def documentOfParts (nodes : List DraftNode) (links : List DraftLink) : Value :=
  .dict [
    ("last_link_id", .int links.length),
    ("nodes", .list (nodeValues 0 0 nodes)),
    ("links", .list (links.map DraftLink.toValue)),
    ("groups", .list []),
    ("config", .dict []),
    ("extra", .dict []),
    ("version", version)]

def ofPrompt (prompt nodesInfo : Value) : Except Fault Value := do
  let drafts ← (← prompt.entries).mapM fun entry => draftNode nodesInfo entry.1 entry.2
  let linked ← linkAll drafts
  .ok (documentOfParts linked.1 linked.2)

end Flowscript.Workflow
