import Flowscript.Value.Render

/-!
# Reading records

A record is read leniently: an entry that is absent reads as null, and a value of another shape
reads as empty.
-/

namespace Flowscript.Value

def items : Value → List Value
  | .list xs | .tuple xs => xs
  | _ => []

def fields : Value → List (String × Value)
  | .dict entries => entries
  | _ => []

def nat : Value → Nat
  | .int n => n.toNat
  | _ => 0

def has (v : Value) (key : String) : Bool := hasKey key v.fields

def part (v : Value) (key : String) : Value := (lookup key v.fields).getD .null

def or (v : Value) (key : String) (otherwise : Value) : Value := (lookup key v.fields).getD otherwise

def arg (v : Value) (i : Nat) : Value := (v.items[i]?).getD .null

def txt (v : Value) (key : String) : String := (v.part key).text

def flag (v : Value) (key : String) : Bool := (v.part key).truthy

def many (v : Value) (key : String) : List Value := (v.part key).items

def texts (v : Value) (key : String) : List String := (v.many key).map text

end Flowscript.Value
