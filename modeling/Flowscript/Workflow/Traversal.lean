import Flowscript.Workflow.Graph
import Flowscript.Workflow.Multiplexer

/-!
# The order of statements

Nodes are visited from the end nodes backwards along their links, and each comes after the nodes
that its links lead to. A visit that meets a fault stops there: the nodes before the fault still
have their place in the order.
-/

namespace Flowscript.Workflow

structure Reading (α : Type) where
  items : List α
  fault : Option Fault

def readEach {α β : Type} (f : α → Except Fault (Option β)) : List α → Reading β
  | [] => ⟨[], none⟩
  | a :: rest => match f a with
    | .error e => ⟨[], some e⟩
    | .ok none => readEach f rest
    | .ok (some b) =>
      let reading := readEach f rest
      ⟨b :: reading.items, reading.fault⟩

def sourceOf (g : Graph) (input : Value) : Except Fault (Option Value) := do
  match ← input.field "link" with
  | .null => .ok none
  | id => .ok (some (← g.link id).source)

/-- The widget values of a node by name, if it has inputs and widgets. -/
def widgetsOfNode (nodesInfo node : Value) : Except Fault (Option (List (String × Value))) := do
  match node.field? "inputs", node.field? "widgets_values" with
  | some _, some values => .ok (some (← widgetValues nodesInfo (← node.field "type") values))
  | _, _ => .ok none

def choiceOfNode (nodesInfo node : Value) : Except Fault (Option (Multiplexer × String)) := do
  match ← widgetsOfNode nodesInfo node with
  | none => .ok none
  | some widgets => choice? (← node.field "type") widgets

def followedSource (g : Graph) (choice : Option (Multiplexer × String)) (input : Value) :
    Except Fault (Option Value) := do
  match choice with
  | none => sourceOf g input
  | some (m, chosen) => if ← m.keeps chosen input then sourceOf g input else .ok none

def sources (nodesInfo : Value) (g : Graph) (id : Value) : Reading Value :=
  let inputs : Except Fault (Option (Multiplexer × String) × List Value) := do
    let node ← g.nodeOf id
    match node.field? "inputs" with
    | none => .ok (none, [])
    | some inputs => .ok (← choiceOfNode nodesInfo node, ← inputs.iterate)
  match inputs with
  | .error e => ⟨[], some e⟩
  | .ok (choice, inputs) => readEach (followedSource g choice) inputs

structure Walk where
  visited : List Value
  order : List Value
  fault : Option Fault

/-- The visit of a vertex: first what its links lead to, then itself. Every level of the recursion
visits a new vertex, so `depth` levels suffice if there are not more vertices than that. -/
def visit (next : Value → Reading Value) : (depth : Nat) → Walk → Value → Walk
  | 0, walk, _ => walk
  | depth + 1, walk, id =>
    if walk.fault.isSome then walk
    else if !id.hashable then { walk with fault := some .wrongKind }
    else if walk.visited.any fun x => x == id then walk
    else
      let reading := next id
      let walk := reading.items.foldl (visit next depth) { walk with visited := id :: walk.visited }
      match walk.fault, reading.fault with
      | some _, _ => walk
      | none, some e => { walk with fault := some e }
      | none, none => { walk with order := walk.order ++ [id] }

def sum (items : List Value) : Except Fault Value := items.foldlM Value.add (.int 0)

def distance (node : Value) : Except Fault Value := do
  match ← node.field "pos" with
  | .record fields =>
    let pos := Value.record fields
    Value.add (← pos.field "0") (← pos.field "1")
  | pos => sum (← pos.iterate)

/-- The distance of a vertex; one without a node counts as the nearest, and is warned about. -/
def keyOf (x : Vertex) : Except Fault Value :=
  match x.node with
  | none => .ok (.int 0)
  | some node => distance node

def warning? (x : Vertex) : Option String :=
  match x.node with
  | none => some ("Unkown output node: " ++ x.id.text)
  | some _ => none

def keyAll : List Vertex → List String × Except Fault (List (Value × Value))
  | [] => ([], .ok [])
  | x :: rest => match keyOf x with
    | .error e => ([], .error e)
    | .ok k =>
      let (warnings, keyed) := keyAll rest
      ((warning? x).toList ++ warnings, keyed.map ((k, x.id) :: ·))

def endNodes (g : Graph) : List String × Except Fault (List Value) :=
  let (warnings, keyed) := keyAll g.sinks
  (warnings, do .ok ((← Value.sortByKey (← keyed)).map Prod.snd))

def walkFrom (nodesInfo : Value) (g : Graph) (ends : List Value) : Walk :=
  ends.foldl (visit (sources nodesInfo g) (g.vertices.length + 2)) ⟨[], [], none⟩

def order (nodesInfo : Value) (g : Graph) (ends : Option Value) : List String × Reading Value :=
  let (warnings, ends) := match ends with
    | none => endNodes g
    | some ends => ([], ends.iterate)
  match ends with
  | .error e => (warnings, ⟨[], some e⟩)
  | .ok ends =>
    let walk := walkFrom nodesInfo g ends
    (warnings, ⟨walk.order, walk.fault⟩)

end Flowscript.Workflow
