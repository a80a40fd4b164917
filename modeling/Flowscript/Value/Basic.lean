import Flowscript.Number.Shortest

/-!
# Values

Workflow documents, node descriptions and call arguments are made of values: the values of JSON,
and those that only a running program holds, such as node outputs, tasks and results. Objects keep
the order of their entries.
-/

namespace Flowscript

inductive ResultKind where
  | plain
  | empty
  | images
  deriving DecidableEq, Repr

inductive EnumBase where
  | text
  | whole
  | decimal
  | plain
  deriving DecidableEq, Repr

inductive Value where
  | null
  | bool (b : Bool)
  | int (n : Int)
  | float (x : Binary64)
  | str (s : String)
  | list (items : List Value)
  | tuple (items : List Value)
  | dict (entries : List (String × Value))
  /-- An object whose entries are read as fields. -/
  | record (fields : List (String × Value))
  | path (text : String)
  | classRef (module name : String)
  | member (base : EnumBase) (enumeration name : String) (value : Value)
  | image (width height : Nat)
  /-- One output of a called node. The object and its node call have identities of their own: two
  outputs of one call share the call. No slot means that the node has no output. -/
  | output (object : Nat) (typeName : String) (info : Value) (call : Nat) (classType : Value)
      (inputs : List (String × Value)) (slot : Option Nat)
  /-- A computed value that remembers the output it stands for. -/
  | wrapped (inner output : Value)
  /-- A queued task, by its identity, its number and its prompt. -/
  | task (object : Nat) (number prompt : Value)
  | result (kind : ResultKind) (output : Value)
  /-- A group of outputs that are queued together, by its identity. -/
  | workflow (object : Nat)
  | node (text : String)
  /-- Any other object, by the name of its class. -/
  | object (className : String)

namespace Value

instance : Inhabited Value := ⟨null⟩

def lookup (key : String) : List (String × Value) → Option Value
  | [] => none
  | (k, v) :: rest => if k == key then some v else lookup key rest

/-- The entries after a key is set: an existing key keeps its place, a new one goes to the end. -/
def put (key : String) (value : Value) : List (String × Value) → List (String × Value)
  | [] => [(key, value)]
  | (k, v) :: rest => if k == key then (k, value) :: rest else (k, v) :: put key value rest

def remove (key : String) (entries : List (String × Value)) : List (String × Value) :=
  entries.filter fun (k, _) => k != key

/-- The left entries, overridden and followed by the right ones. -/
def merge (left right : List (String × Value)) : List (String × Value) :=
  right.foldl (fun acc (k, v) => put k v acc) left

def hasKey (key : String) (entries : List (String × Value)) : Bool := (lookup key entries).isSome

/-- The number that a value is, where truth values count as one and zero. -/
def number? : Value → Option (Int ⊕ Binary64)
  | bool b => some (.inl (if b then 1 else 0))
  | int n => some (.inl n)
  | float x => some (.inr x)
  | member .whole _ _ v => match v with
    | int n => some (.inl n)
    | _ => none
  | _ => none

def text? : Value → Option String
  | str s => some s
  | member .text _ _ (str s) => some s
  | member .decimal _ _ (str s) => some s
  | _ => none

def sameNumber : Int ⊕ Binary64 → Int ⊕ Binary64 → Bool
  | .inl a, .inl b => a == b
  | .inl a, .inr y => y.sameInt a
  | .inr x, .inl b => x.sameInt b
  | .inr x, .inr y => x.same y

/-- Whether two leaves are equal; objects with an identity are equal only to themselves. -/
def sameLeaf (a b : Value) : Bool :=
  match a.number?, b.number? with
  | some x, some y => sameNumber x y
  | _, _ => match a.text?, b.text? with
    | some s, some t => s == t
    | _, _ => match a, b with
      | null, null => true
      | path s, path t => s == t
      | classRef m s, classRef n t => m == n && s == t
      | output o .., output p .. => o == p
      | task o .., task p .. => o == p
      | workflow o, workflow p => o == p
      | member _ e m _, member _ f n _ => e == f && m == n
      | _, _ => false

mutual

/-- Equality of values: sequences item by item, objects entry by entry in any order. -/
def same : Value → Value → Bool
  | list xs, list ys => sameItems xs ys
  | tuple xs, tuple ys => sameItems xs ys
  | dict xs, dict ys => xs.length == ys.length && sameEntries xs ys
  | record xs, record ys => xs.length == ys.length && sameEntries xs ys
  | wrapped v _, w => same v w
  | v, w => sameLeaf v w
termination_by structural v => v

def sameItems : List Value → List Value → Bool
  | [], [] => true
  | x :: xs, y :: ys => same x y && sameItems xs ys
  | _, _ => false
termination_by structural items => items

/-- Every entry of the left has an equal one on the right. -/
def sameEntries : List (String × Value) → List (String × Value) → Bool
  | [], _ => true
  | entry :: rest, ys => sameEntry entry ys && sameEntries rest ys
termination_by structural entries => entries

def sameEntry : String × Value → List (String × Value) → Bool
  | (k, x), ys => match lookup k ys with
    | some y => same x y
    | none => false
termination_by structural entry => entry

end

instance : BEq Value := ⟨same⟩

mutual

/-- A value that may be a key: not a list and not an object, and no such part inside a tuple. -/
def hashable : Value → Bool
  | list _ | dict _ | record _ => false
  | tuple items => hashableItems items
  | wrapped v _ => hashable v
  | _ => true

def hashableItems : List Value → Bool
  | [] => true
  | v :: rest => hashable v && hashableItems rest

end

mutual

def asRecords : Value → Value
  | list items => list (itemsAsRecords items)
  | tuple items => tuple (itemsAsRecords items)
  | dict entries => record (entriesAsRecords entries)
  | v => v

def itemsAsRecords : List Value → List Value
  | [] => []
  | v :: rest => asRecords v :: itemsAsRecords rest

def entriesAsRecords : List (String × Value) → List (String × Value)
  | [] => []
  | entry :: rest => entryAsRecord entry :: entriesAsRecords rest

def entryAsRecord : String × Value → String × Value
  | (k, v) => (k, asRecords v)

end

def truthy : Value → Bool
  | null => false
  | bool b => b
  | int n => n != 0
  | float x => !x.isZero
  | str s => !s.isEmpty
  | list items | tuple items => !items.isEmpty
  | dict entries => !entries.isEmpty
  | member .plain .. => true
  | member _ _ _ v => match v with
    | int n => n != 0
    | str s => !s.isEmpty
    | _ => true
  | wrapped v _ => match v with
    | null => false
    | bool b => b
    | int n => n != 0
    | float x => !x.isZero
    | str s => !s.isEmpty
    | list items | tuple items => !items.isEmpty
    | dict entries => !entries.isEmpty
    | _ => true
  | _ => true

end Value

end Flowscript
