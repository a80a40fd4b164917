import Flowscript.Fault

/-!
# Reading values

Operations that read one value as something in particular, and fail if it is not that.
-/

namespace Flowscript.Value

def bare : Value → Value
  | wrapped v _ => v
  | v => v

def index? : Value → Option Int
  | int n => some n
  | bool b => some (if b then 1 else 0)
  | member .whole _ _ (int n) => some n
  | _ => none

/-- The place of a position in a sequence, where negative positions count from the end. -/
def position? (length : Nat) (i : Int) : Option Nat :=
  if 0 ≤ i then (if i < length then some i.toNat else none)
  else if -(length : Int) ≤ i then some (i + length).toNat else none

def nth {α : Type} (items : List α) (i : Int) : Except Fault α :=
  match position? items.length i with
  | some k => match items[k]? with
    | some v => .ok v
    | none => .error .outOfRange
  | none => .error .outOfRange

def item (v key : Value) : Except Fault Value :=
  match v.bare with
  | dict entries =>
    if key.hashable then
      match key.text? with
      | some k => match lookup k entries with
        | some found => .ok found
        | none => .error .missingKey
      | none => .error .missingKey
    else .error .wrongKind
  | list items | tuple items => match key.index? with
    | some i => nth items i
    | none => .error .wrongKind
  | str s => match key.index? with
    | some i => (nth s.toList i).map fun c => str c.toString
    | none => .error .wrongKind
  | member .text _ _ (str s) => match key.index? with
    | some i => (nth s.toList i).map fun c => str c.toString
    | none => .error .wrongKind
  | _ => .error .wrongKind

def entry (v : Value) (key : String) : Except Fault Value := v.item (str key)

def get (v : Value) (key : String) : Except Fault (Option Value) :=
  match v.bare with
  | dict entries => .ok (lookup key entries)
  | _ => .error .missingField

def field? (v : Value) (name : String) : Option Value :=
  match v with
  | record fields => lookup name fields
  | _ => none

def field (v : Value) (name : String) : Except Fault Value :=
  match v.field? name with
  | some found => .ok found
  | none => .error .missingField

def iterable : Value → Bool
  | list _ | tuple _ | dict _ | str _ | member .text .. | member .decimal .. => true
  | wrapped v _ => match v with
    | list _ | tuple _ | dict _ | str _ => true
    | _ => false
  | _ => false

/-- The items of a value: of a sequence, the characters of a text, the keys of an object. -/
def iterate (v : Value) : Except Fault (List Value) :=
  match v.bare with
  | list items | tuple items => .ok items
  | dict entries => .ok (entries.map fun (k, _) => str k)
  | str s | member .text _ _ (str s) | member .decimal _ _ (str s) =>
    .ok (s.toList.map fun c => str c.toString)
  | _ => .error .wrongKind

def length (v : Value) : Except Fault Nat := v.iterate.map List.length

def entries (v : Value) : Except Fault (List (String × Value)) :=
  match v.bare with
  | dict entries => .ok entries
  | _ => .error .missingField

/-- A text is an item of a value, a part of it, or one of its keys. -/
def containsText (v : Value) (key : String) : Except Fault Bool :=
  match v.bare with
  | dict entries => .ok (hasKey key entries)
  | list items | tuple items => .ok (items.any fun item => item == str key)
  | str s => .ok ((s.splitOn key).length != 1 || key.isEmpty)
  | _ => .error .wrongKind

def addNumbers : Int ⊕ Binary64 → Int ⊕ Binary64 → Value
  | .inl a, .inl b => int (a + b)
  | .inl a, .inr y => float ((Binary64.ofInt a).add y)
  | .inr x, .inl b => float (x.add (Binary64.ofInt b))
  | .inr x, .inr y => float (x.add y)

def add (v w : Value) : Except Fault Value :=
  match v.number?, w.number? with
  | some x, some y => .ok (addNumbers x y)
  | _, _ => match v, w with
    | str s, str t => .ok (str (s ++ t))
    | list xs, list ys => .ok (list (xs ++ ys))
    | tuple xs, tuple ys => .ok (tuple (xs ++ ys))
    | _, _ => .error .wrongKind

def placeOf? : Int ⊕ Binary64 → Option Binary64.Place
  | .inl n => some (.at n 1)
  | .inr x => x.place?

def lessNumber (x y : Int ⊕ Binary64) : Bool :=
  match placeOf? x, placeOf? y with
  | some p, some q => p.less q
  | _, _ => false

mutual

/-- Strict order of values: of numbers, of texts by their codes, and of lists item by item. -/
def less : Value → Value → Except Fault Bool
  | list xs, list ys => lessItems xs ys
  | tuple xs, tuple ys => lessItems xs ys
  | v, w => match v.number?, w.number? with
    | some x, some y => .ok (lessNumber x y)
    | _, _ => match v.text?, w.text? with
      | some s, some t => .ok (decide (s < t))
      | _, _ => .error .wrongKind

def lessItems : List Value → List Value → Except Fault Bool
  | [], [] => .ok false
  | [], _ :: _ => .ok true
  | _ :: _, [] => .ok false
  | x :: xs, y :: ys => if same x y then lessItems xs ys else less x y

end

def insertSorted {α : Type} (key : Value) (a : α) :
    List (Value × α) → Except Fault (List (Value × α))
  | [] => .ok [(key, a)]
  | (k, b) :: rest => do
    if ← less key k then .ok ((key, a) :: (k, b) :: rest)
    else .ok ((k, b) :: (← insertSorted key a rest))

/-- Keyed items in the order of their keys; items with equal keys keep their order. -/
def sortByKey {α : Type} (items : List (Value × α)) : Except Fault (List (Value × α)) :=
  items.foldlM (fun sorted (k, a) => insertSorted k a sorted) []

end Flowscript.Value
