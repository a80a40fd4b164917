import Flowscript.Identifier
import Flowscript.Literal
import Flowscript.Number.Whole

/-!
# Enumerations

An enumeration names values. Its member names are raw identifiers of the given keys, with
underscores added until they differ from those before and are not reserved. A member whose value
equals that of an earlier one is another name for the earlier one.
-/

namespace Flowscript

/-- A member: its name, the name of the first member with the same value, and the value. -/
structure EnumMember where
  name : String
  canonical : String
  value : Value

structure Enumeration where
  name : String
  base : EnumBase
  members : List EnumMember

namespace Enumeration

def baseName : EnumBase → String
  | .text => "StrEnum"
  | .whole => "IntEnum"
  | .decimal => "FloatEnum"
  | .plain => "Enum"

def avoidReserved (name : String) : String :=
  if Identifier.isReserved name.toList then name ++ "_" else name

/-- The first of `name`, `name_`, … that is neither taken nor reserved; one of the first
`taken.length + 1` tries is free. -/
def freeName (taken : List String) : (fuel : Nat) → String → String
  | 0, name => name
  | fuel + 1, name =>
    if taken.contains name then freeName taken fuel (avoidReserved (name ++ "_")) else name

def memberName (taken : List String) (key : String) : String :=
  freeName taken (taken.length + 1) (avoidReserved (Identifier.raw key))

def assignNames (items : List (String × Value)) : List (String × Value) :=
  items.foldl (fun named (key, value) =>
    named ++ [(memberName (named.map Prod.fst) key, value)]) []

def declare (margin name base : String) (named : List (String × Value)) : String :=
  let line (n : String) (v : Value) : String :=
    "\n" ++ margin ++ "    " ++ n ++ " = " ++ (match v with
      | .str s => Literal.write s
      | v => v.shown)
  let body := String.join (named.map fun (n, v) => line n v)
  margin ++ "class " ++ name ++ "(" ++ base ++ "):" ++
    (if named.isEmpty then "\n" ++ margin ++ "    pass" else body) ++ "\n"

def memberValue (base : EnumBase) (v : Value) : Except Fault Value :=
  match base with
  | .text => match v with
    | .str s => .ok (.str s)
    | _ => .error .wrongKind
  | .whole => v.whole.map .int
  | .decimal => .ok (.str v.text)
  | .plain => .ok v

/-- The members after one more: a value that is there already gives a second name. -/
def addMember (members : List EnumMember) (name : String) (value : Value) : List EnumMember :=
  match members.find? fun m => m.value == value with
  | some m => members ++ [⟨name, m.canonical, m.value⟩]
  | none => members ++ [⟨name, name, value⟩]

/-- The enumeration of named values. One name is not possible for a member. -/
def build (base : EnumBase) (name : String) (named : List (String × Value)) :
    Except Fault Enumeration := do
  if named.any fun (n, _) => n == "mro" then .error .badValue
  let members ← named.foldlM (fun members (n, v) => do
    .ok (addMember members n (← memberValue base v))) []
  .ok ⟨name, base, members⟩

def ofItems (base : EnumBase) (name margin : String) (baseText : String)
    (items : List (String × Value)) : Except Fault (String × Enumeration) := do
  let named := assignNames items
  .ok (declare margin name baseText named, ← build base name named)

def ofTexts (name margin : String) (items : List (String × Value)) :=
  ofItems .text name margin (baseName .text) items

def keyByText (values : List Value) : List (String × Value) :=
  values.foldl (fun acc v => Value.put v.text v acc) []

def ofWholes (name margin : String) (values : List Value) :=
  ofItems .whole name margin (baseName .whole) (keyByText values)

def ofDecimals (name margin : String) (values : List Value) :=
  ofItems .decimal name margin (baseName .decimal) (keyByText values)

def memberOf (e : Enumeration) (m : EnumMember) : Value :=
  .member e.base e.name m.canonical m.value

def find? (e : Enumeration) (name : String) : Option Value :=
  (e.members.find? fun m => m.name == name).map e.memberOf

end Enumeration

end Flowscript
