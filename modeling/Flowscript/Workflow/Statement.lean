import Flowscript.Literal

/-!
# Statements of scripts

The statement of a node assigns the outputs of a call to variables, or, where the node is bypassed,
moves variables. Outputs that nothing uses go to `_`, and a statement with no used output is a
comment.
-/

namespace Flowscript.Workflow

inductive Argument where
  | widget (value : Value)
  /-- A link from a node that has no statement. -/
  | hole (type : Value)
  /-- A link from an output that a variable holds; if it may move, nothing else needs the
  variable. -/
  | held (name : String) (type : Value) (mayMove : Bool)
  | absent

namespace Argument

def text : Argument → String
  | widget v => Literal.ofValue v
  | hole _ => "_"
  | held name _ _ => name
  | absent => "None"

/-- The type of a linked argument; others have none. -/
def type : Argument → Value
  | hole t => t
  | held _ t _ => t
  | _ => .null

def mayMove? : Argument → Option Bool
  | held _ _ m => some m
  | _ => none

def keep : Argument → Argument
  | held name type _ => held name type false
  | a => a

def value : Argument → Value
  | widget v => v
  | _ => .null

end Argument

inductive Expression where
  | call (callee : String) (arguments : List Argument)
  | move (sources : List Argument)

structure Statement where
  targets : List String
  expression : Expression
  commented : Bool

def joinTexts (texts : List String) : String := ", ".intercalate texts

/-- The target list of an assignment; if two or more unused targets lead it, the rest may be
folded. -/
def targetList (targets : List String) (fold : Bool) : String :=
  if fold && decide (2 ≤ (targets.takeWhile (· == "_")).length) then joinTexts targets ++ ", *_"
  else joinTexts targets

def Expression.text : Expression → String
  | call callee arguments => callee ++ "(" ++ joinTexts (arguments.map Argument.text) ++ ")"
  | move sources => joinTexts (sources.map Argument.text)

def Statement.text (s : Statement) : String :=
  (if s.commented then "# " else "") ++
    (if s.targets.isEmpty then "" else targetList s.targets false ++ " = ") ++
    s.expression.text ++ "\n"

end Flowscript.Workflow
