import Flowscript.Text.Case
import Flowscript.Value.Access

/-!
# Yes-or-no choices

A choice between two values that mean yes and no is offered as a truth value: two truth values, or
two words such as `enable` and `disable` in any case.
-/

namespace Flowscript.Choice

def wordPairs : List (String × String) := [
  ("enable", "disable"), ("on", "off"), ("true", "false"), ("yes", "no")]

def lowered (v : Value) : Except Fault String :=
  match v.text? with
  | some s => .ok (Text.lower s)
  | none => .error .missingField

def isYesNo (choice : Value) : Except Fault Bool := do
  if (← choice.length) != 2 then return false
  match ← choice.item (.int 0) with
  | .bool a => match ← choice.item (.int 1) with
    | .bool b => if a != b then .ok true else .error .broken
    | _ => .error .broken
  | first =>
    if first.text?.isNone then return false
    let words ← (← choice.iterate).mapM lowered
    return wordPairs.any fun (yes, no) => words == [yes, no] || words == [no, yes]

def startsWithYes (choice : Value) : Except Fault Bool := do
  match ← choice.item (.int 0) with
  | .bool b => .ok b
  | first =>
    let word ← lowered first
    if wordPairs.any fun (yes, _) => word == yes then .ok true
    else if wordPairs.any fun (_, no) => word == no then .ok false
    else .error (.notYesOrNo choice)

def pick (choice : Value) (yes : Bool) : Except Fault Value := do
  if (← startsWithYes choice) == yes then choice.item (.int 0) else choice.item (.int 1)

end Flowscript.Choice
