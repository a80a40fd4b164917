import Flowscript.Identifier
import Flowscript.Workflow.Elimination
import Flowscript.Workflow.Statement
import Flowscript.Workflow.Traversal

/-!
# Writing statements

The statement of a node names the variables of its outputs. An output takes over the variable of an
input of the same type that nothing else uses, so that a value changed step by step keeps its name;
otherwise it gets a fresh variable named after it.
-/

namespace Flowscript.Workflow

structure Draft where
  graph : Graph
  names : List String

/-- Steps that change a draft and may fail; a failure keeps the changes made before it. -/
abbrev Drafting := ExceptT Fault (StateM Draft)

def check {α : Type} (result : Except Fault α) : Drafting α := ExceptT.mk (pure result)

/-- The first of `name2`, `name3`, … that is not in use; one of the first `names.length + 1` is
free. -/
def numberedName (names : List String) (name : String) : (fuel : Nat) → Nat → String
  | 0, n => name ++ Value.intText n
  | fuel + 1, n =>
    let candidate := name ++ Value.intText n
    if names.contains candidate then numberedName names name fuel (n + 1) else candidate

def freshName (names : List String) (name : String) : String :=
  if names.contains name then numberedName names name (names.length + 1) 2 else name

def useName (name : String) : Drafting Unit :=
  modify fun d => { d with names := d.names ++ [name] }

def declareName (name : String) : Drafting Unit := do
  if !(← get).names.contains name then useName name

def assignName (name : String) : Drafting String := do
  let name := freshName (← get).names name
  useName name
  return name

def setField (name : String) (value node : Value) : Value :=
  match node with
  | .record fields => .record (Value.put name value fields)
  | node => node

def writeField (id : Value) (name : String) (value : Value) : Drafting Unit :=
  modify fun d => { d with
    graph := d.graph.modifyVertex id fun x => { x with node := x.node.map (setField name value) } }

def itemsOf (v : Value) : Except Fault (List Value) :=
  match v with
  | .list items => .ok items
  | _ => .error .missingField

def lastSlot : Value := .int 0xFFFFFFFF

/-- The place of an input in the order of arguments: the slot its link ends in. -/
def placeOfInput (g : Graph) (input : Value) : Except Fault Value := do
  let link ← input.field "link"
  if link.truthy then .ok (← g.endOf link).targetSlot else .ok lastSlot

def placeOfOutput (output : Value) : Value := (output.field? "slot_index").getD lastSlot

def sortOn (key : Value → Except Fault Value) (items : List Value) : Except Fault (List Value) := do
  let keyed ← items.mapM fun item => do .ok (← key item, item)
  .ok ((← Value.sortByKey keyed).map Prod.snd)

def isSole (links : Value) : Except Fault Bool :=
  match links with
  | .null => .ok true
  | links => do .ok ((← links.length) == 1)

def linkedArgument (g : Graph) (input link : Value) : Except Fault Argument := do
  let edge ← g.endOf link
  match g.vertex? edge.source with
  | none => .error .missingKey
  | some x => match x.outputIds with
    | none => .ok (.hole (← input.field "type"))
    | some ids => match x.node with
      | none => .error .missingKey
      | some node =>
        let links ← (← (← node.field "outputs").item edge.sourceSlot).field "links"
        match Table.find? edge.sourceSlot ids with
        | none => .error .missingKey
        | some name =>
          let type ← input.field "type"
          .ok (.held name type (← isSole links))

/-- The arguments with one under its name; a name that is no text is that of no argument. -/
def putArgument (name : Value) (a : Argument) (arguments : List (String × Argument)) :
    Except Fault (List (String × Argument)) :=
  if !name.hashable then .error .wrongKind
  else .ok (match name.text? with
    | some n => Table.put n a arguments
    | none => arguments)

def putLinked (g : Graph) (arguments : List (String × Argument)) (input : Value) :
    Except Fault (List (String × Argument)) := do
  match ← input.field "link" with
  | .null => .ok arguments
  | link =>
    let a ← linkedArgument g input link
    putArgument (← input.field "name") a arguments

def linkedArguments (g : Graph) (inputs : List Value) (arguments : List (String × Argument)) :
    Except Fault (List (String × Argument)) :=
  inputs.foldlM (putLinked g) arguments

def widgetArguments (nodesInfo node type : Value) : Except Fault (List (String × Argument)) := do
  match node.field? "widgets_values" with
  | none => .ok []
  | some values =>
    .ok ((← widgetValues nodesInfo type values).map fun (name, value) => (name, .widget value))

/-- The arguments of a node by name: widget values, overridden by links. -/
def argumentsOf (nodesInfo id node type : Value) : Drafting (List (String × Argument)) := do
  let arguments ← check (widgetArguments nodesInfo node type)
  match node.field? "inputs" with
  | none => return arguments
  | some inputs =>
    let g := (← get).graph
    let inputs ← check do sortOn (placeOfInput g) (← itemsOf inputs)
    writeField id "inputs" (.list inputs)
    check (linkedArguments (← get).graph inputs arguments)

def isUsed (output : Value) : Except Fault Bool := do
  match ← output.field "links" with
  | .null => .ok false
  | links => .ok ((← links.length) != 0)

def suggestedName (node output : Value) : Except Fault String := do
  let name ← output.field "name"
  if name == .str "" then Identifier.nameOf (← output.field "type")
  else Identifier.nameOf (← Value.add ((node.field? "title").getD (.str "")) name)

structure Targets where
  arguments : List Argument
  names : List String
  /-- The arguments that have the type of an output. -/
  twins : List Argument
  used : Bool

/-- The positions of the arguments of the same type as an output. -/
def twinsOf (arguments : List Argument) (output : Value) : Except Fault (List (Nat × Argument)) :=
  arguments.zipIdx.foldlM (fun found (a, i) => do
    if (← output.field "type") == a.type && a.text != "_" then .ok (found ++ [(i, a)])
    else .ok found) []

/-- A variable for an output that takes none over: if it is the only output, that of the only
argument of any type, or else a fresh one. -/
def otherVariable (node output : Value) (single : Bool) (arguments : List Argument) :
    Drafting String := do
  match single, arguments.filter fun a => a.type == .str "*" with
  | true, [a] => return a.text
  | _, _ => assignName (Identifier.variableId (← check (suggestedName node output)))

/-- The variable of a used output: that of its only twin if it may move, or another one. -/
def chooseVariable (node output : Value) (single : Bool) (t : Targets) :
    Drafting (String × Targets) := do
  match ← check (twinsOf t.arguments output) with
  | [(i, a)] =>
    let t := { t with twins := t.twins ++ [a] }
    match a.mayMove? with
    | none => throw .missingKey
    | some true => return (a.text, { t with arguments := t.arguments.modify i Argument.keep })
    | some false => return (← otherVariable node output single t.arguments, t)
  | _ => return (← otherVariable node output single t.arguments, t)

def slotOf (output : Value) (single : Bool) (position : Nat) : Value :=
  match output.field? "slot_index" with
  | some slot => slot
  | none => if single then .int 0 else .int position

def recordOutput (id slot : Value) (name : String) : Drafting Unit := do
  modify fun d => { d with graph := d.graph.modifyVertex id fun x =>
    { x with outputIds := some (x.outputIds.getD []) } }
  if !slot.hashable then throw .wrongKind
  else modify fun d => { d with graph := d.graph.modifyVertex id fun x =>
    { x with outputIds := x.outputIds.map (Table.put slot name) } }

def assignOutput (id node : Value) (single : Bool) (t : Targets) (output : Value)
    (position : Nat) : Drafting Targets := do
  if ← check (isUsed output) then
    let (name, t) ← chooseVariable node output single t
    recordOutput id (slotOf output single position) name
    return { t with names := t.names ++ [name], used := true }
  else return { t with names := t.names ++ ["_"] }

def assignOutputs (id node : Value) (arguments : List Argument) : Drafting Targets := do
  match node.field? "outputs" with
  | none => return ⟨arguments, [], [], false⟩
  | some outputs =>
    let outputs ← check do sortOn (fun o => .ok (placeOfOutput o)) (← itemsOf outputs)
    writeField id "outputs" (.list outputs)
    outputs.zipIdx.foldlM (fun t (output, i) =>
      assignOutput id node (outputs.length == 1) t output i) ⟨arguments, [], [], false⟩

/-- A mode in which a node is bypassed: its outputs are the inputs of the same types. -/
def bypassMode : Value := .int 4

/-- The statement of a node before the passes; a bypassed node whose outputs have no inputs to
stand for them has none. -/
def statementOf (mode : Value) (callee : String) (t : Targets) : Option Statement :=
  let commented := !t.names.isEmpty && !t.used
  if mode == bypassMode then
    if !t.names.isEmpty && t.twins.length == t.names.length then
      some ⟨t.names, .move t.twins, commented⟩
    else none
  else some ⟨t.names, .call callee t.arguments, commented⟩

/-- What a node contributes to a script: what its outputs have got, its statement, and the line
that is left of it. -/
structure Contribution where
  node : Value
  targets : Targets
  statement : Option Statement
  line : String

def subjectOf (type : Value) (arguments : List (String × Argument)) (chosen : Bool) : Subject where
  type := type
  widget name := match Table.find? name arguments with
    | some a => .ok a.value
    | none => .error .missingKey
  chosen := chosen

def contribute (nodesInfo id node mode type : Value) (callee : String)
    (named : List (String × Argument)) (targets : Targets) : Except Fault Contribution := do
  match statementOf mode callee targets with
  | none => .ok ⟨id, targets, none, ""⟩
  | some statement =>
    let choice ← choiceOfNode nodesInfo node
    let line ← eliminate (subjectOf type named choice.isSome) statement.text
    .ok ⟨id, targets, some statement, line⟩

def emit (nodesInfo id : Value) : Drafting Contribution := do
  let node ← check ((← get).graph.nodeOf id)
  let mode ← check (node.field "mode")
  let type ← check (node.field "type")
  let callee := Identifier.classId (← check (Identifier.nameOf type))
  declareName callee
  let named ← argumentsOf nodesInfo id node type
  let arguments ← check (positional nodesInfo type (fun name => Table.find? name named) .absent)
  let targets ← assignOutputs id node arguments
  check (contribute nodesInfo id node mode type callee named targets)

end Flowscript.Workflow
