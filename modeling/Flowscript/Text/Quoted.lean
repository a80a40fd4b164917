import Flowscript.Text.PrintableTable

/-!
# Quoted text

A text is quoted between single quotes, or between double quotes if it holds a single quote and no
double one. Backslashes and the chosen quote are escaped, and so are the characters that have no
printed form.
-/

namespace Flowscript.Text

def hex (width n : Nat) : String :=
  let digits := Nat.toDigits 16 n
  String.ofList (List.replicate (width - digits.length) '0' ++ digits)

def isPrintable (c : Char) : Bool :=
  if isAscii c then decide (' ' ≤ c) && decide (c ≤ '~') else !inSpans unprintableSpans c

def quoteFor (cs : List Char) : Char :=
  if cs.contains '\'' && !cs.contains '"' then '"' else '\''

def quoteChar (quote c : Char) : String :=
  if c == quote || c == '\\' then String.ofList ['\\', c]
  else if c == '\n' then "\\n"
  else if c == '\r' then "\\r"
  else if c == '\t' then "\\t"
  else if isPrintable c then c.toString
  else if c.toNat < 0x100 then "\\x" ++ hex 2 c.toNat
  else if c.toNat < 0x10000 then "\\u" ++ hex 4 c.toNat
  else "\\U" ++ hex 8 c.toNat

def quoted (s : String) : String :=
  let quote := quoteFor s.toList
  quote.toString ++ String.join (s.toList.map (quoteChar quote)) ++ quote.toString

/-- One byte between the given quotes: everything outside printable ASCII is shown by its code. -/
def quoteByte (quote : Char) (b : UInt8) : String :=
  let c := Char.ofNat b.toNat
  if b.toNat < 128 then quoteChar quote c else "\\x" ++ hex 2 b.toNat

def quotedBytes (bytes : List UInt8) : String :=
  let quote := quoteFor (bytes.map fun b => Char.ofNat b.toNat)
  "b" ++ quote.toString ++ String.join (bytes.map (quoteByte quote)) ++ quote.toString

end Flowscript.Text
