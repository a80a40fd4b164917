import Flowscript.Text.CaseTable

/-!
# Upper and lower case

Case conversion of whole texts. A character may become several (`ß` becomes `SS`), and a capital
sigma becomes `ς` at the end of a word and `σ` elsewhere.
-/

namespace Flowscript.Text

def shiftOf (rows : List (Nat × Nat × Nat × Int)) (c : Char) : Option Int :=
  (rows.find? fun (lo, hi, stride, _) =>
    decide (lo ≤ c.toNat) && decide (c.toNat ≤ hi) && (c.toNat - lo) % stride == 0).map
    fun (_, _, _, d) => d

/-- A character after a case mapping: ASCII letters move by `ascii`, others as the tables say. -/
def mapCase (isSource : Char → Bool) (ascii : Int) (rows : List (Nat × Nat × Nat × Int))
    (expansions : List (Nat × List Nat)) (c : Char) : List Char :=
  let moved (d : Int) : Char := Char.ofNat (Int.toNat (c.toNat + d))
  if isAscii c then
    if isSource c then [moved ascii] else [c]
  else match expansions.lookup c.toNat with
    | some codes => codes.map Char.ofNat
    | none => match shiftOf rows c with
      | some d => [moved d]
      | none => [c]

def upperChar (c : Char) : List Char :=
  mapCase isAsciiLower (-32) upperShifts upperExpansions c

def lowerChar (c : Char) : List Char :=
  mapCase isAsciiUpper 32 lowerShifts lowerExpansions c

def capitalSigma : Char := Char.ofNat 0x3A3

/-- The nearest character that is not passed over carries case. -/
def meetsWord (cs : List Char) : Bool :=
  match cs.dropWhile (inStridedSpans skippedSpans) with
  | [] => false
  | c :: _ => inStridedSpans wordSpans c

/-- The lower case of a text whose already converted part, nearest character first, is `before`. -/
def lowerFrom (before : List Char) : List Char → List Char
  | [] => []
  | c :: rest =>
    let here :=
      if c == capitalSigma then
        [if meetsWord before && !meetsWord rest then Char.ofNat 0x3C2 else Char.ofNat 0x3C3]
      else lowerChar c
    here ++ lowerFrom (c :: before) rest

def lower (s : String) : String := String.ofList (lowerFrom [] s.toList)

def upper (s : String) : String := String.ofList (s.toList.flatMap upperChar)

def isUpperChar (c : Char) : Bool :=
  if isAscii c then isAsciiUpper c else inStridedSpans upperSpans c

def isSmallChar (c : Char) : Bool :=
  if isAscii c then isAsciiLower c else inStridedSpans smallSpans c

/-- A text is upper case if it has an upper-case character and no lower-case or title-case one. -/
def isUpper (cs : List Char) : Bool := cs.any isUpperChar && cs.all fun c => !isSmallChar c

end Flowscript.Text
