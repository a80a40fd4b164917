/-!
# Sets of characters as spans of codes

A character class is a list of spans. A plain span `(lo, hi)` holds every code from `lo` to `hi`;
a strided span `(lo, hi, stride)` holds `lo`, `lo + stride`, … up to `hi`.
-/

namespace Flowscript.Text

/-- Spans behind a code, by the codes between them and in them in turn. -/
def spansFrom (code : Nat) : List Nat → List (Nat × Nat)
  | gap :: length :: rest => (code + gap, code + gap + length - 1) :: spansFrom (code + gap + length) rest
  | _ => []

/-- Strided spans behind a code, by the way to each, its steps and its stride in turn. -/
def stridedSpansFrom (code : Nat) : List Nat → List (Nat × Nat × Nat)
  | gap :: steps :: stride :: rest =>
    let hi := code + gap + steps * stride
    (code + gap, hi, stride) :: stridedSpansFrom hi rest
  | _ => []

def inSpans (spans : List (Nat × Nat)) (c : Char) : Bool :=
  spans.any fun (lo, hi) => decide (lo ≤ c.toNat) && decide (c.toNat ≤ hi)

/-- The code of `c` is one of the codes that a strided span lists. -/
def inStridedSpans (spans : List (Nat × Nat × Nat)) (c : Char) : Bool :=
  spans.any fun (lo, hi, stride) =>
    decide (lo ≤ c.toNat) && decide (c.toNat ≤ hi) && (c.toNat - lo) % stride == 0

def isAscii (c : Char) : Bool := decide (c.toNat < 128)

def isAsciiLower (c : Char) : Bool := decide ('a' ≤ c) && decide (c ≤ 'z')

def isAsciiUpper (c : Char) : Bool := decide ('A' ≤ c) && decide (c ≤ 'Z')

def isAsciiLetter (c : Char) : Bool := isAsciiLower c || isAsciiUpper c

def isAsciiDigit (c : Char) : Bool := decide ('0' ≤ c) && decide (c ≤ '9')

end Flowscript.Text
