import Flowscript.Fault

/-!
# Reading JSON

A document is read in two passes over lists: characters are folded into tokens, and tokens are
folded into a value with a stack of open containers. A number without point and exponent is a whole
number of any size, any other is rounded to the nearest floating-point number. A repeated key keeps
its first place and its last value.
-/

namespace Flowscript.Json

inductive Token where
  | openObject
  | closeObject
  | openList
  | closeList
  | colon
  | comma
  | text (s : String)
  | word (cs : List Char)

/-- Where the tokenizer stands; texts and words are held backwards. -/
inductive ScanMode where
  | idle
  | inWord (cs : List Char)
  /-- Inside a text; `high` is the first half of a character that was written in two halves. -/
  | inText (cs : List Char) (high : Option Nat)
  | escape (cs : List Char) (high : Option Nat)
  | code (cs : List Char) (high : Option Nat) (digits : List Nat)

/-- The tokenizer: its mode and the tokens so far, last first. -/
structure Scan where
  mode : ScanMode
  out : List Token

def punctuation? : Char → Option Token
  | '\x7b' => some .openObject
  | '\x7d' => some .closeObject
  | '[' => some .openList
  | ']' => some .closeList
  | ':' => some .colon
  | ',' => some .comma
  | _ => none

def isSpace (c : Char) : Bool := c == ' ' || c == '\n' || c == '\t' || c == '\r'

def isWordChar (c : Char) : Bool :=
  Text.isAsciiLetter c || Text.isAsciiDigit c || c == '-' || c == '+' || c == '.'

def hexDigit? (c : Char) : Option Nat :=
  if Text.isAsciiDigit c then some (c.toNat - 48)
  else if 'a' ≤ c && c ≤ 'f' then some (c.toNat - 87)
  else if 'A' ≤ c && c ≤ 'F' then some (c.toNat - 55)
  else none

def replacement : Char := Char.ofNat 0xFFFD

def closeHalf (cs : List Char) : Option Nat → List Char
  | none => cs
  | some _ => replacement :: cs

def afterCode (cs : List Char) (high : Option Nat) (code : Nat) : ScanMode :=
  let isHigh := 0xD800 ≤ code && code ≤ 0xDBFF
  let isLow := 0xDC00 ≤ code && code ≤ 0xDFFF
  match high with
  | some h =>
    if isLow then .inText (Char.ofNat (0x10000 + (h - 0xD800) * 0x400 + (code - 0xDC00)) :: cs) none
    else if isHigh then .inText (replacement :: cs) (some code)
    else .inText (Char.ofNat code :: replacement :: cs) none
  | none =>
    if isHigh then .inText cs (some code)
    else if isLow then .inText (replacement :: cs) none
    else .inText (Char.ofNat code :: cs) none

def escape? : Char → Option Char
  | '"' => some '"'
  | '\\' => some '\\'
  | '/' => some '/'
  | 'b' => some '\x08'
  | 'f' => some '\x0c'
  | 'n' => some '\n'
  | 'r' => some '\r'
  | 't' => some '\t'
  | _ => none

def scanIdle (out : List Token) (c : Char) : Option Scan :=
  if isSpace c then some ⟨.idle, out⟩
  else match punctuation? c with
    | some t => some ⟨.idle, t :: out⟩
    | none =>
      if c == '"' then some ⟨.inText [] none, out⟩
      else if isWordChar c then some ⟨.inWord [c], out⟩
      else none

def scanChar (s : Scan) (c : Char) : Option Scan :=
  match s.mode with
  | .idle => scanIdle s.out c
  | .inWord cs =>
    if isWordChar c then some ⟨.inWord (c :: cs), s.out⟩
    else scanIdle (.word cs.reverse :: s.out) c
  | .inText cs high =>
    if c == '"' then some ⟨.idle, .text (String.ofList (closeHalf cs high).reverse) :: s.out⟩
    else if c == '\\' then some ⟨.escape cs high, s.out⟩
    else if c.toNat < 0x20 then none
    else some ⟨.inText (c :: closeHalf cs high) none, s.out⟩
  | .escape cs high =>
    if c == 'u' then some ⟨.code cs high [], s.out⟩
    else match escape? c with
      | some e => some ⟨.inText (e :: closeHalf cs high) none, s.out⟩
      | none => none
  | .code cs high digits => match hexDigit? c with
    | none => none
    | some d =>
      let digits := digits ++ [d]
      if digits.length = 4 then
        some ⟨afterCode cs high (digits.foldl (fun n d => n * 16 + d) 0), s.out⟩
      else some ⟨.code cs high digits, s.out⟩

def tokens? (cs : List Char) : Option (List Token) := do
  let s ← cs.foldlM scanChar ⟨.idle, []⟩
  match s.mode with
  | .idle => some s.out.reverse
  | .inWord cs => some ((Token.word cs.reverse :: s.out).reverse)
  | _ => none

def natOf (cs : List Char) : Nat := cs.foldl (fun n c => n * 10 + (c.toNat - 48)) 0

/-- A run of digits that is not empty, and what follows it. -/
def digits? (cs : List Char) : Option (List Char × List Char) :=
  let ds := cs.takeWhile Text.isAsciiDigit
  if ds.isEmpty then none else some (ds, cs.dropWhile Text.isAsciiDigit)

def exponent? : List Char → Option Int
  | [] => none
  | c :: rest =>
    if c == 'e' || c == 'E' then
      match rest with
      | '-' :: ds => match digits? ds with
        | some (ds, []) => some (-(natOf ds : Int))
        | _ => none
      | '+' :: ds => match digits? ds with
        | some (ds, []) => some (natOf ds)
        | _ => none
      | ds => match digits? ds with
        | some (ds, []) => some (natOf ds)
        | _ => none
    else none

def unsigned? (negative : Bool) (cs : List Char) : Option Value :=
  match digits? cs with
  | none => none
  | some (whole, rest) =>
    if 1 < whole.length && whole.head? == some '0' then none
    else match rest with
      | [] => some (.int (if negative then -(natOf whole : Int) else natOf whole))
      | '.' :: rest => match digits? rest with
        | none => none
        | some (part, rest) =>
          let exponent : Option Int := if rest.isEmpty then some 0 else exponent? rest
          exponent.map fun e =>
            .float (Binary64.ofDecimal negative (natOf (whole ++ part)) (e - part.length))
      | rest => (exponent? rest).map fun e => .float (Binary64.ofDecimal negative (natOf whole) e)

def word? (cs : List Char) : Option Value :=
  match String.ofList cs with
  | "null" => some .null
  | "true" => some (.bool true)
  | "false" => some (.bool false)
  | "NaN" => some (.float Binary64.notANumber)
  | "Infinity" => some (.float (Binary64.infinity false))
  | "-Infinity" => some (.float (Binary64.infinity true))
  | _ => match cs with
    | '-' :: rest => unsigned? true rest
    | cs => unsigned? false cs

/-- An open container: the items of a list backwards, or the entries of an object and the key whose
value is being read. -/
inductive Frame where
  | list (items : List Value)
  | object (entries : List (String × Value)) (key : String)

inductive Expect where
  | value
  /-- A first item or the end of the list. -/
  | firstItem
  /-- A first key or the end of the object. -/
  | firstKey
  | key
  | colon
  /-- A comma or the end of the container. -/
  | next
  | nothing

/-- The parser: open containers, innermost first, what may come next, and the finished value. -/
structure Parse where
  stack : List Frame
  expect : Expect
  value : Value

def completed (stack : List Frame) (v : Value) : Parse :=
  match stack with
  | [] => ⟨[], .nothing, v⟩
  | .list items :: rest => ⟨.list (v :: items) :: rest, .next, .null⟩
  | .object entries key :: rest => ⟨.object (Value.put key v entries) key :: rest, .next, .null⟩

def startValue (stack : List Frame) : Token → Option Parse
  | .openObject => some ⟨.object [] "" :: stack, .firstKey, .null⟩
  | .openList => some ⟨.list [] :: stack, .firstItem, .null⟩
  | .text s => some (completed stack (.str s))
  | .word cs => (word? cs).map (completed stack)
  | _ => none

def startKey (stack : List Frame) : Token → Option Parse
  | .text s => match stack with
    | .object entries _ :: rest => some ⟨.object entries s :: rest, .colon, .null⟩
    | _ => none
  | _ => none

def parseToken (p : Parse) (t : Token) : Option Parse :=
  match p.expect, t with
  | .value, t => startValue p.stack t
  | .firstItem, .closeList => match p.stack with
    | .list items :: rest => some (completed rest (.list items.reverse))
    | _ => none
  | .firstItem, t => startValue p.stack t
  | .firstKey, .closeObject => match p.stack with
    | .object entries _ :: rest => some (completed rest (.dict entries))
    | _ => none
  | .firstKey, t => startKey p.stack t
  | .key, t => startKey p.stack t
  | .colon, .colon => some { p with expect := .value }
  | .next, .comma => match p.stack with
    | .list _ :: _ => some { p with expect := .value }
    | .object .. :: _ => some { p with expect := .key }
    | [] => none
  | .next, .closeList => match p.stack with
    | .list items :: rest => some (completed rest (.list items.reverse))
    | _ => none
  | .next, .closeObject => match p.stack with
    | .object entries _ :: rest => some (completed rest (.dict entries))
    | _ => none
  | _, _ => none

def parse? (s : String) : Option Value := do
  let p ← (← tokens? s.toList).foldlM parseToken ⟨[], .value, .null⟩
  match p.expect with
  | .nothing => some p.value
  | _ => none

def parse (s : String) : Except Fault Value :=
  match parse? s with
  | some v => .ok v
  | none => .error .malformedJson

end Flowscript.Json
