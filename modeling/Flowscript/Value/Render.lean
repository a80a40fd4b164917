import Flowscript.Text.Quoted
import Flowscript.Value.Basic

/-!
# The text of values

Two texts of a value: `Value.text` is what a message shows of it, `Value.shown` is how it stands
inside a list or an object, where texts are quoted.
-/

namespace Flowscript.Value

/-- Numbers have no exponent between `0.0001` and `1e16`, keep `.0` if they are whole, and have an
exponent of at least two digits with its sign. -/
def layout : Decimal.Layout where
  lowestPoint := -3
  highestPoint := 16
  wholeSuffix := ".0"
  mark := "e"
  exponentWidth := 2
  infinity := "inf"
  notANumber := "nan"

def intText (n : Int) : String :=
  (if n < 0 then "-" else "") ++ String.ofList (Nat.toDigits 10 n.natAbs)

def resultClass : ResultKind → String
  | .plain => "Result"
  | .empty => "EmptyResult"
  | .images => "ImageBatchResult"

def instanceText (className : String) : String := "<" ++ className ++ " object at 0x?>"

def outputClass (typeName : String) : String :=
  if typeName == "NodeOutput" then "comfy_script.runtime.data.NodeOutput"
  else "comfy_script.runtime.factory." ++ typeName

def className (moduleName name : String) : String :=
  if moduleName == "builtins" then name else moduleName ++ "." ++ name

mutual

def shown : Value → String
  | null => "None"
  | bool b => if b then "True" else "False"
  | int n => intText n
  | float x => x.text layout
  | str s => Text.quoted s
  | list items => "[" ++ shownItems items ++ "]"
  | tuple items => match items with
    | [v] => "(" ++ shown v ++ ",)"
    | items => "(" ++ shownItems items ++ ")"
  | dict entries => "\x7b" ++ shownEntries entries ++ "\x7d"
  | record fields => "namespace(" ++ shownFields fields ++ ")"
  | path t => "PurePosixPath(" ++ Text.quoted t ++ ")"
  | classRef m n => "<class '" ++ className m n ++ "'>"
  | member _ e n v => "<" ++ e ++ "." ++ n ++ ": " ++ shown v ++ ">"
  | image w h =>
    "<PIL.Image.Image image mode=RGB size=" ++ intText w ++ "x" ++ intText h ++ " at 0x?>"
  | output _ t _ _ _ _ _ => instanceText (outputClass t)
  | wrapped v _ => shown v
  | task _ number prompt => "Task(n=" ++ text number ++ ", id=" ++ text prompt ++ ")"
  | result kind v => resultClass kind ++ "(" ++ shown v ++ ")"
  | workflow _ => instanceText "comfy_script.runtime.Workflow"
  | node t => t
  | object c => instanceText c

def shownItems : List Value → String
  | [] => ""
  | [v] => shown v
  | v :: rest => shown v ++ ", " ++ shownItems rest

def shownEntries : List (String × Value) → String
  | [] => ""
  | [entry] => shownEntry entry
  | entry :: rest => shownEntry entry ++ ", " ++ shownEntries rest

def shownEntry : String × Value → String
  | (k, v) => Text.quoted k ++ ": " ++ shown v

def shownFields : List (String × Value) → String
  | [] => ""
  | [field] => shownField field
  | field :: rest => shownField field ++ ", " ++ shownFields rest

def shownField : String × Value → String
  | (k, v) => k ++ "=" ++ shown v

def text : Value → String
  | str s => s
  | path t => t
  | member base e n v => match base with
    | .text | .whole => text v
    | .decimal | .plain => e ++ "." ++ n
  | wrapped v _ => text v
  | task _ number prompt => "Task " ++ text number ++ " (" ++ text prompt ++ ")"
  | result kind v => resultClass kind ++ "(" ++ text v ++ ")"
  | workflow _ => instanceText "comfy_script.runtime.Workflow"
  | null => "None"
  | bool b => if b then "True" else "False"
  | int n => intText n
  | float x => x.text layout
  | list items => "[" ++ shownItems items ++ "]"
  | tuple items => match items with
    | [v] => "(" ++ shown v ++ ",)"
    | items => "(" ++ shownItems items ++ ")"
  | dict entries => "\x7b" ++ shownEntries entries ++ "\x7d"
  | record fields => "namespace(" ++ shownFields fields ++ ")"
  | classRef m n => "<class '" ++ className m n ++ "'>"
  | image w h =>
    "<PIL.Image.Image image mode=RGB size=" ++ intText w ++ "x" ++ intText h ++ " at 0x?>"
  | output _ t _ _ _ _ _ => instanceText (outputClass t)
  | node t => t
  | object c => instanceText c

end

def kindName : Value → String
  | null => "NoneType"
  | bool _ => "bool"
  | int _ => "int"
  | float _ => "float"
  | str _ => "str"
  | list _ => "list"
  | tuple _ => "tuple"
  | dict _ => "dict"
  | record _ => "types.SimpleNamespace"
  | path _ => "pathlib.PurePosixPath"
  | classRef .. => "type"
  | member _ e _ _ => e
  | image .. => "PIL.Image.Image"
  | output _ t _ _ _ _ _ => outputClass t
  | wrapped .. => "comfy_script.runtime.real.nodes.RealNodeOutputWrapper"
  | task .. => "comfy_script.runtime.Task"
  | result kind _ => match kind with
    | .images => "comfy_script.runtime.data.Images.ImageBatchResult"
    | kind => "comfy_script.runtime.data." ++ resultClass kind
  | workflow _ => "comfy_script.runtime.Workflow"
  | node _ => "comfy_script.runtime.nodes.Node"
  | object c => c

def kindText (v : Value) : String := "<class '" ++ v.kindName ++ "'>"

end Flowscript.Value
