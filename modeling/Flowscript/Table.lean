/-!
# Tables

A table is a list of keyed entries in the order in which the keys came. A key that is set again
keeps its place.
-/

namespace Flowscript.Table

variable {κ α : Type} [BEq κ]

def find? (key : κ) : List (κ × α) → Option α
  | [] => none
  | (k, a) :: rest => if k == key then some a else find? key rest

/-- The table with an entry set: an existing key keeps its place, a new one goes to the end. -/
def put (key : κ) (a : α) : List (κ × α) → List (κ × α)
  | [] => [(key, a)]
  | (k, b) :: rest => if k == key then (k, a) :: rest else (k, b) :: put key a rest

def erase (key : κ) (table : List (κ × α)) : List (κ × α) := table.filter fun (k, _) => !(k == key)

def has (key : κ) (table : List (κ × α)) : Bool := (find? key table).isSome

def update (key : κ) (f : α → α) (table : List (κ × α)) : List (κ × α) :=
  table.map fun (k, a) => if k == key then (k, f a) else (k, a)

end Flowscript.Table
