import Flowscript.Fault

/-!
# Writing JSON

Documents are written in ASCII, other characters by their codes. `pretty` puts every item on a line
of its own, two blanks deeper than its container; `compact` writes no blanks. Paths are written as
texts; what a document cannot hold is a fault.
-/

namespace Flowscript.Json

def unitText (n : Nat) : String := "\\u" ++ Text.hex 4 n

def charText (c : Char) : String :=
  if c == '"' then "\\\""
  else if c == '\\' then "\\\\"
  else if c == '\n' then "\\n"
  else if c == '\r' then "\\r"
  else if c == '\t' then "\\t"
  else if c == '\x08' then "\\b"
  else if c == '\x0c' then "\\f"
  else if ' ' ≤ c && c ≤ '~' then c.toString
  else if c.toNat < 0x10000 then unitText c.toNat
  else
    let n := c.toNat - 0x10000
    unitText (0xD800 + n / 0x400) ++ unitText (0xDC00 + n % 0x400)

def quotedText (s : String) : String := "\"" ++ String.join (s.toList.map charText) ++ "\""

/-- Numbers stand as in messages, except for those that are not finite. -/
def layout : Decimal.Layout := { Value.layout with infinity := "Infinity", notANumber := "NaN" }

structure Style where
  opening : String
  between : String
  closing : String
  colon : String

def styleAt (depth : Option Nat) : Style :=
  match depth with
  | none => ⟨"", ",", "", ":"⟩
  | some d =>
    let line (k : Nat) : String := "\n" ++ String.ofList (List.replicate (2 * k) ' ')
    ⟨line (d + 1), "," ++ line (d + 1), line d, ": "⟩

def container (style : Style) (opening closing : String) (items : List String) : String :=
  if items.isEmpty then opening ++ closing
  else opening ++ style.opening ++ style.between.intercalate items ++ style.closing ++ closing

mutual

def write (depth : Option Nat) : Value → Except Fault String
  | .null => .ok "null"
  | .bool b => .ok (if b then "true" else "false")
  | .int n => .ok (Value.intText n)
  | .float x => .ok (x.text layout)
  | .str s => .ok (quotedText s)
  | .path t => .ok (quotedText t)
  | .list items | .tuple items => do
    let written ← writeItems (depth.map (· + 1)) items
    .ok (container (styleAt depth) "[" "]" written)
  | .dict entries => do
    let written ← writeEntries (depth.map (· + 1)) (styleAt depth).colon entries
    .ok (container (styleAt depth) "\x7b" "\x7d" written)
  | .member base _ _ v => match base with
    | .plain => .error .wrongKind
    | _ => write depth v
  | _ => .error .wrongKind

def writeItems (depth : Option Nat) : List Value → Except Fault (List String)
  | [] => .ok []
  | v :: rest => do
    let first ← write depth v
    .ok (first :: (← writeItems depth rest))

def writeEntries (depth : Option Nat) (colon : String) :
    List (String × Value) → Except Fault (List String)
  | [] => .ok []
  | entry :: rest => do
    let first ← writeEntry depth colon entry
    .ok (first :: (← writeEntries depth colon rest))

def writeEntry (depth : Option Nat) (colon : String) : String × Value → Except Fault String
  | (k, v) => do .ok (quotedText k ++ colon ++ (← write depth v))

end

def pretty (v : Value) : Except Fault String := write (some 0) v

def compact (v : Value) : Except Fault String := write none v

end Flowscript.Json
