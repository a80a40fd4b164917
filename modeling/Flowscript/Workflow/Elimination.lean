import Flowscript.Text.Blank
import Flowscript.Workflow.Multiplexer

/-!
# Statements that do nothing

A statement is dropped or shortened if its node has no effect of its own: nodes that only pass on
a value, moves of a variable to itself, nodes that hold a literal, nodes that are switched off, and
multiplexers with a chosen input. The passes look at the text of the statement.
-/

namespace Flowscript.Workflow

/-- What the passes know about a node: its type, the widget values among its arguments, and
whether it is a multiplexer with a chosen input. -/
structure Subject where
  type : Value
  widget : String → Except Fault Value
  chosen : Bool

def after? (start cs : List Char) : Option (List Char) :=
  if start.isPrefixOf cs then some (cs.drop start.length) else none

/-- The text itself, and what follows a comment mark in front of it. -/
def uncommented (cs : List Char) : List (List Char) :=
  match after? "# ".toList cs with
  | some rest => [rest, cs]
  | none => [cs]

def callBody? (cs : List Char) : Option (List Char) :=
  let isName (c : Char) : Bool := Text.isAsciiLetter c || Text.isAsciiDigit c || c == '_'
  if (cs.takeWhile isName).isEmpty then none
  else match cs.dropWhile isName with
    | '(' :: rest => some rest
    | _ => none

/-- A call with some argument without blanks, to nothing but `_`. -/
def callsUnused (cs : List Char) : Bool :=
  match (after? "_ = ".toList cs).bind callBody? with
  | none => false
  | some body =>
    let body := Text.trimRight body
    let argument := body.dropLast
    body.getLast? == some ')' && !argument.isEmpty && argument.all fun c => !Text.isBlank c

/-- A call with a single argument, to the variable that is the argument. -/
def callsToItself (cs : List Char) : Bool :=
  let name := cs.takeWhile fun c => !Text.isBlank c
  if name.isEmpty then false
  else match (after? " = ".toList (cs.drop name.length)).bind callBody? with
    | none => false
    | some body => match after? (name ++ [')']) body with
      | some rest => rest.all Text.isBlank
      | none => false

def reroutes (statement : String) : Bool :=
  (uncommented statement.toList).any fun cs => callsUnused cs || callsToItself cs

def assigns (x cs : List Char) : Bool :=
  !x.isEmpty && match (after? " = ".toList cs).bind (after? x) with
    | some rest => rest.all Text.isBlank
    | none => false

/-- The text is `x = x` and blanks for some `x` on one line; what is read of `x` so far is given
backwards. -/
def movesFrom (read : List Char) : List Char → Bool
  | [] => false
  | c :: cs => assigns read.reverse (c :: cs) || (c != '\n' && movesFrom (c :: read) cs)

def movesToItself (statement : String) : Bool :=
  (uncommented statement.toList).any (movesFrom [])

def literalCall : List Char := " = PrimitiveNode(".toList

def cutLiteralCall : List Char → Option (List Char × List Char)
  | [] => none
  | c :: cs => match after? literalCall (c :: cs) with
    | some rest => some ([], rest)
    | none => (cutLiteralCall cs).map fun (front, rest) => (c :: front, rest)

/-- The statement with the literal itself in place of the call that holds it. -/
def literalOf? (statement : String) : Option String :=
  match cutLiteralCall statement.toList with
  | none => none
  | some (front, rest) =>
    let body := Text.trimRight rest
    let literal := body.dropLast
    if body.getLast? == some ')' && !literal.isEmpty then
      some (String.ofList (front ++ " = ".toList ++ literal ++ rest.drop body.length))
    else none

structure Switch where
  nodeType : String
  ways : List (List (String × Value))

def switches : List Switch := [
  ⟨"HypernetworkLoader", [[("strength", .int 0)]]⟩,
  ⟨"CLIPSetLastLayer", [[("stop_at_clip_layer", .int (-1))]]⟩,
  ⟨"ConditioningSetArea", [[("strength", .int 0)]]⟩,
  ⟨"ConditioningSetAreaPercentage", [[("strength", .int 0)]]⟩,
  ⟨"ConditioningSetMask", [[("strength", .int 0)]]⟩,
  ⟨"ControlNetApply", [[("strength", .int 0)]]⟩,
  ⟨"ControlNetApplyAdvanced", [[("strength", .int 0)]]⟩,
  ⟨"CR Apply ControlNet", [[("switch", .str "Off")], [("strength", .int 0)]]⟩,
  ⟨"CR Color Tint", [[("strength", .int 0)]]⟩,
  ⟨"CR Load LoRA",
    [[("switch", .str "Off")], [("strength_model", .int 0), ("strength_clip", .int 0)]]⟩,
  ⟨"LatentMultiply", [[("multiplier", .int 1)]]⟩,
  ⟨"TomePatchModel", [[("ratio", .int 0)]]⟩,
  ⟨"unCLIPConditioning", [[("strength", .int 0)]]⟩]

def hasAny (widget : String → Except Fault Value) : List (String × Value) → Except Fault Bool
  | [] => .ok false
  | (name, value) :: rest => do
    if (← widget name) == value then .ok true else hasAny widget rest

/-- A node counts as switched off as soon as one listed value of any way is there. -/
def Switch.isOff (s : Switch) (widget : String → Except Fault Value) : Except Fault Bool :=
  hasAny widget s.ways.flatten

/-- A pass: the statement after it, which is empty if the statement is dropped. -/
abbrev Pass := Subject → String → Except Fault String

def dropReroute : Pass := fun subject statement =>
  if !typeIn rerouteTypes subject.type then .ok statement
  else if reroutes statement then .ok ""
  else .error (.unexpectedStatement statement)

def dropMove : Pass := fun _ statement =>
  .ok (if movesToItself statement then "" else statement)

def inlineLiteral : Pass := fun subject statement =>
  if !(subject.type == .str "PrimitiveNode") then .ok statement
  else match literalOf? statement with
    | some shorter => .ok shorter
    | none => .error (.unexpectedStatement statement)

def dropSwitchedOff : Pass := fun subject statement => do
  if !subject.type.hashable then .error .wrongKind
  else match switches.find? fun s => subject.type == .str s.nodeType with
  | none => .ok statement
  | some s => .ok (if ← s.isOff subject.widget then "" else statement)

def dropMultiplexer : Pass := fun subject statement => do
  if !subject.chosen then .ok statement
  else match ← multiplexer? subject.type with
    | none => .error .broken
    | some _ =>
      if statement.toList.contains '_' then .ok "" else .error (.unexpectedStatement statement)

def passes : List Pass := [dropReroute, dropMove, inlineLiteral, dropSwitchedOff, dropMultiplexer]

def runPasses (subject : Subject) : List Pass → String → Except Fault String
  | [], statement => .ok statement
  | pass :: rest, statement => do
    let statement ← pass subject statement
    if statement.isEmpty then .ok "" else runPasses subject rest statement

def eliminate (subject : Subject) (statement : String) : Except Fault String :=
  runPasses subject passes statement

end Flowscript.Workflow
