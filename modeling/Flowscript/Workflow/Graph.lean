import Flowscript.Table
import Flowscript.Value.Access

/-!
# Workflow graphs

A workflow document lists nodes and links. Its graph has a vertex for each node, and one for each
end of a link that names no node; links may run in parallel. Ids are values, and ids that are equal
as values are one id.
-/

namespace Flowscript.Workflow

/-- A vertex: its node, if the document has one, and the variables that hold the node's outputs
once its statement is written. -/
structure Vertex where
  id : Value
  node : Option Value
  outputIds : Option (List (Value × String))

structure Edge where
  source : Value
  target : Value
  key : Value
  sourceSlot : Value
  targetSlot : Value
  type : Value

structure Link where
  id : Value
  source : Value
  target : Value
  key : Value

structure Graph where
  vertices : List Vertex
  edges : List Edge
  links : List Link

namespace Graph

def empty : Graph := ⟨[], [], []⟩

def vertex? (g : Graph) (id : Value) : Option Vertex := g.vertices.find? fun x => x.id == id

def hasVertex (g : Graph) (id : Value) : Except Fault Bool :=
  if id.hashable then .ok (g.vertex? id).isSome else .error .wrongKind

def modifyVertex (g : Graph) (id : Value) (f : Vertex → Vertex) : Graph :=
  { g with vertices := g.vertices.map fun x => if x.id == id then f x else x }

def addVertex (g : Graph) (id : Value) : Except Fault Graph := do
  if ← g.hasVertex id then .ok g
  else match id with
    | .null => .error .badValue
    | id => .ok { g with vertices := g.vertices ++ [⟨id, none, none⟩] }

/-- The graph with a node; a later node of the same id replaces an earlier one. -/
def addNode (g : Graph) (node : Value) : Except Fault Graph := do
  let id ← node.field "id"
  .ok ((← g.addVertex id).modifyVertex id fun x => { x with node := some node })

def keysBetween (g : Graph) (source target : Value) : List Value :=
  (g.edges.filter fun e => e.source == source && e.target == target).map Edge.key

/-- The first number from `n` on that is not among the keys; one of the first
`keys.length + 1` is free. -/
def freeKey (keys : List Value) : (fuel : Nat) → Nat → Nat
  | 0, n => n
  | fuel + 1, n => if keys.any fun k => k == .int n then freeKey keys fuel (n + 1) else n

/-- The key of a new edge: a link without a number gets the next free one. -/
def edgeKey (g : Graph) (source target id : Value) : Value :=
  match id with
  | .null =>
    let keys := g.keysBetween source target
    .int (freeKey keys (keys.length + 1) keys.length)
  | id => id

def putEdge (e : Edge) : List Edge → List Edge
  | [] => [e]
  | f :: rest =>
    if f.source == e.source && f.target == e.target && f.key == e.key then e :: rest
    else f :: putEdge e rest

def putLink (l : Link) : List Link → List Link
  | [] => [l]
  | m :: rest => if m.id == l.id then { l with id := m.id } :: rest else m :: putLink l rest

def addLink (g : Graph) (link : Value) : Except Fault Graph := do
  match ← link.iterate with
  | [id, source, sourceSlot, target, targetSlot, type] =>
    let g ← g.addVertex source
    let g ← g.addVertex target
    if !id.hashable then .error .wrongKind
    else
      let key := g.edgeKey source target id
      .ok { g with
        edges := putEdge ⟨source, target, key, sourceSlot, targetSlot, type⟩ g.edges
        links := putLink ⟨id, source, target, id⟩ g.links }
  | _ => .error .badValue

def ofDocument (document : Value) : Except Fault Graph := do
  let g ← (← (← document.field "nodes").iterate).foldlM addNode empty
  (← (← document.field "links").iterate).foldlM addLink g

def link (g : Graph) (id : Value) : Except Fault Link :=
  if !id.hashable then .error .wrongKind
  else match g.links.find? fun l => l.id == id with
    | some l => .ok l
    | none => .error .missingKey

def edge (g : Graph) (l : Link) : Except Fault Edge :=
  match g.edges.find? fun e => e.source == l.source && e.target == l.target && e.key == l.key with
  | some e => .ok e
  | none => .error .missingKey

def endOf (g : Graph) (id : Value) : Except Fault Edge := do g.edge (← g.link id)

def sinks (g : Graph) : List Vertex :=
  g.vertices.filter fun x => !g.edges.any fun e => e.source == x.id

def nodeOf (g : Graph) (id : Value) : Except Fault Value :=
  if !id.hashable then .error .wrongKind
  else match (g.vertex? id).bind Vertex.node with
    | some node => .ok node
    | none => .error .missingKey

end Graph

end Flowscript.Workflow
