import Flowscript.Text.Blank

/-!
# Lines of a text

A text is cut into lines at every line end that Unicode knows; a carriage return followed by a line
feed is one line end. `indent` puts a margin in front of every line that is not blank.
-/

namespace Flowscript.Text

def isLineEnd (c : Char) : Bool :=
  inSpans [(0xA, 0xD), (0x1C, 0x1E), (0x85, 0x85), (0x2028, 0x2029)] c

/-- The lines of a text, each with its line end; `line` holds the current line backwards. -/
def linesFrom (line : List Char) : List Char → List (List Char)
  | [] => if line.isEmpty then [] else [line.reverse]
  | '\r' :: '\n' :: rest => ('\n' :: '\r' :: line).reverse :: linesFrom [] rest
  | c :: rest =>
    if isLineEnd c then (c :: line).reverse :: linesFrom [] rest else linesFrom (c :: line) rest

def lines (s : String) : List String := (linesFrom [] s.toList).map String.ofList

/-- The text with `margin` in front of every line that holds more than blanks. -/
def indent (margin s : String) : String :=
  String.join ((lines s).map fun line =>
    if (trim line.toList).isEmpty then line else margin ++ line)

end Flowscript.Text
