/-!
# Module paths

A dotted name is looked up from its longest proper part on: `a.b.c` is found in module `a.b`, or
else in module `a`. A lookup may find a module, find nothing or fail; a failure counts as nothing.
-/

namespace Flowscript.ModulePath

inductive Lookup (α : Type) where
  | found (a : α)
  | nothing
  | failed

/-- What precedes each dot of a name, longest first; names are given and returned backwards. -/
def cuts : List Char → List (List Char)
  | [] => []
  | c :: rest => if c == '.' then rest :: cuts rest else cuts rest

def lookupAt {α : Type} (find : String → Lookup α) (reversed : List Char) : Option α :=
  if reversed.isEmpty then none
  else match find (String.ofList reversed.reverse) with
    | .found a => some a
    | .nothing | .failed => none

def resolve {α : Type} (find : String → Lookup α) (name : String) : Option α :=
  (cuts name.toList.reverse).findSome? (lookupAt find)

def importable (known : String → Bool) (name : String) : Bool :=
  known name && (cuts name.toList.reverse).all fun cut => known (String.ofList cut.reverse)

end Flowscript.ModulePath
