import Flowscript.Fault
import Flowscript.Text.Blank
import Flowscript.Text.Digit

/-!
# Whole numbers from texts and values

A text stands for a whole number if, between blanks, it is a sign or none and decimal digits with
single underscores between them at most.
-/

namespace Flowscript

/-- The number of digits and single underscores between them; `after` tells whether a digit stands
just before. -/
def groupedDigits? (total : Nat) (after : Bool) : List Char → Option Nat
  | [] => if after then some total else none
  | c :: rest =>
    if c == '_' then if after then groupedDigits? total false rest else none
    else match Text.digitValue? c with
      | some d => groupedDigits? (total * 10 + d) true rest
      | none => none

def wholeOfText? (s : String) : Option Int :=
  match Text.trim s.toList with
  | '-' :: rest => (groupedDigits? 0 false rest).map fun n => -(n : Int)
  | '+' :: rest => (groupedDigits? 0 false rest).map fun n => (n : Int)
  | cs => (groupedDigits? 0 false cs).map fun n => (n : Int)

def Value.whole (v : Value) : Except Fault Int :=
  match v.number? with
  | some (.inl n) => .ok n
  | some (.inr x) => match x.unpack with
    | .notANumber => .error .badValue
    | .infinite _ => .error .overflow
    | .finite .. => .ok (x.truncate?.getD 0)
  | none => match v.text? with
    | some s => match wholeOfText? s with
      | some n => .ok n
      | none => .error .badValue
    | none => .error .wrongKind

end Flowscript
