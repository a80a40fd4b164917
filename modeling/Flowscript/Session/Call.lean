import Flowscript.NodeInfo
import Flowscript.Session.Basic

/-!
# Calling nodes

A call of a node gives its outputs without running anything: each output remembers the call with
its inputs. The outputs of an output node are also collected by the workflow under way.

An enumeration that is attached to a node under the name of one of the node's own attributes takes
the place of that attribute.
-/

namespace Flowscript

structure VirtualNode where
  entry : NodeEntry
  /-- A single output is given as a list too. -/
  packs : Bool

namespace VirtualNode

/-- The enumeration that takes the place of an attribute. -/
def shadow? (n : VirtualNode) (name : String) : Option Enumeration :=
  Table.find? name n.entry.attached

/-- The description of the node. An enumeration in its place has members only. -/
def infoEntry (n : VirtualNode) (key : String) : Except Fault Value :=
  match n.shadow? "info" with
  | none => n.entry.info.entry key
  | some e => match e.find? key with
    | some member => .ok member
    | none => .error .missingKey

def text (n : VirtualNode) : Except Fault String := do
  .ok ("<Node " ++ (← n.infoEntry "name").text ++ ">")

def outputCount (n : VirtualNode) : Nat :=
  match n.shadow? "output_types" with
  | none => n.entry.outputTypes.length
  | some e => (e.members.filter fun m => m.name == m.canonical).length

def outputName : TypeRef → Except Fault String
  | .data id _ => .ok id
  | .anyOutput => .ok "NodeOutput"
  | _ => .error .wrongKind

end VirtualNode

def isEmptyOutput : Value → Bool
  | .output _ _ _ _ _ _ none => true
  | _ => false

/-- Named arguments without those that are none; an empty output is no argument. -/
def dropNulls : List (String × Value) → Except Fault (List (String × Value))
  | [] => .ok []
  | (name, v) :: rest =>
    match v with
    | .null => dropNulls rest
    | v => do
      if isEmptyOutput v then .error (.emptyOutput name v)
      .ok ((name, v) :: (← dropNulls rest))

namespace SessionM

variable {κ : Type}

def bindPositional (info : Value) (arguments : List Value) :
    SessionM κ (List (String × Value)) := do
  let (bound, surplus) ← check (NodeInfo.bind info arguments)
  print (← check (NodeInfo.surplusNotice info surplus))
  return bound

def collect (flow : Nat) (outputs : Value) : SessionM κ Unit := do
  let items ← if outputs.iterable then check outputs.iterate else pure [outputs]
  setFlow flow fun f => { f with outputs := f.outputs ++ items }

def offer (n : VirtualNode) (outputs : Value) : SessionM κ Unit := do
  match ← check (n.entry.info.get "output_node") with
  | some (.bool true) =>
    if (n.shadow? "output_hook").isSome then throw .badValue
    match (← get).hook with
    | some flow => collect flow outputs
    | none => pure ()
  | _ => pure ()

def makeOutputs (n : VirtualNode) (inputs : List (String × Value)) : SessionM κ Value := do
  let type ← check (n.infoEntry "name")
  let call ← freshId
  let info := n.entry.info
  let make (typeName : String) (slot : Option Nat) : SessionM κ Value := do
    return .output (← freshId) typeName info call type inputs slot
  if (n.shadow? "output_types").isSome && n.outputCount != 0 then
    throw (if n.outputCount == 1 then .missingKey else .wrongKind)
  match (if (n.shadow? "output_types").isSome then [] else n.entry.outputTypes) with
  | [] => make "NodeOutput" none
  | [t] => make (← check (VirtualNode.outputName t)) (some 0)
  | types => do
    let outputs ← types.zipIdx.mapM fun (t, i) => do
      make (← check (VirtualNode.outputName t)) (some i)
    return .list outputs

def callNode (n : VirtualNode) (arguments : List Value) (named : List (String × Value)) :
    SessionM κ Value := do
  if (n.shadow? "info").isSome then
    let _ ← check (n.infoEntry "input")
    throw .missingField
  let bound ← bindPositional n.entry.info arguments
  let kept ← check (dropNulls (Value.merge bound named))
  if (n.shadow? "defaults").isSome then throw .wrongKind
  let outputs ← makeOutputs n (Value.merge n.entry.defaults kept)
  offer n outputs
  if n.packs || (n.shadow? "_pack_single_output").isSome then
    match outputs with
    | .list _ => return outputs
    | output => return .list [output]
  else return outputs

end SessionM

end Flowscript
