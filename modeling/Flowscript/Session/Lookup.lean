import Flowscript.Session.Queue

/-!
# Looking things up

Values that stand for workflows and tasks are taken for what they stand for, and nodes and members
of enumerations are found by name.
-/

namespace Flowscript.SessionM

variable {κ : Type}

def asFlow (v : Value) : SessionM κ Nat :=
  match v with
  | .workflow id => return id
  | _ => throw .missingField

def asTask (v : Value) : SessionM κ Nat :=
  match v with
  | .task id _ _ => return id
  | _ => throw .missingField

def found {α : Type} (result : Option α) : SessionM κ α :=
  match result with
  | some x => return x
  | none => throw .unbound

def nodeNamed (name : String) : SessionM κ VirtualNode := do
  match Table.find? name (← get).nodes with
  | some n => return ⟨n, false⟩
  | none => throw .wrongKind

def nodeUnder (id : String) : SessionM κ VirtualNode := do
  match ← found (Table.find? id (← get).vars) with
  | .node name _ => nodeNamed name
  | _ => throw .wrongKind

def enumerationUnder (id : String) : SessionM κ Enumeration := do
  match ← found (Table.find? id (← get).vars) with
  | .enumeration e => return e
  | _ => throw .missingField

def memberUnder (id member : String) : SessionM κ Value := do
  match Table.find? id (← get).vars with
  | some (.enumeration e) => found (e.find? member)
  | _ => throw .unbound

def memberOfNode (node id member : String) : SessionM κ Value := do
  let entry ← found (Table.find? node (← get).nodes)
  let e ← found (Table.find? id entry.attached)
  found (e.find? member)

def promptOfValue (v : Value) : SessionM κ Prompt := do
  match v with
  | .workflow id => promptOf (← flow id).outputs
  | .output .. => check (Prompt.ofOutput v)
  | _ => throw .missingField

end Flowscript.SessionM
