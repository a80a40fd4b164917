import Flowscript.Text.Spans

/-!
# Blank characters

Blanks are the characters that Unicode 14 treats as white space, together with the four ASCII
separators. `trimLeft` and `trimRight` remove them from the ends of a text.
-/

namespace Flowscript.Text

def blankSpans : List (Nat × Nat) := [
  (0x9, 0xD), (0x1C, 0x20), (0x85, 0x85), (0xA0, 0xA0), (0x1680, 0x1680), (0x2000, 0x200A),
  (0x2028, 0x2029), (0x202F, 0x202F), (0x205F, 0x205F), (0x3000, 0x3000)]

def isBlank (c : Char) : Bool := inSpans blankSpans c

def trimLeft (cs : List Char) : List Char := cs.dropWhile isBlank

def trimRight (cs : List Char) : List Char := (cs.reverse.dropWhile isBlank).reverse

def trim (cs : List Char) : List Char := trimRight (trimLeft cs)

end Flowscript.Text
