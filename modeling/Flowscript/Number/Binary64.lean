/-!
# Binary floating-point numbers of 64 bits

A number is kept as its 64 bits. Everything else is exact arithmetic on the numerator and the
power of two that the bits stand for: numbers are read from a ratio by rounding to the nearest
representable value, ties to even, and compared without rounding.
-/

namespace Flowscript

structure Binary64 where
  /-- The sign bit, eleven exponent bits and fifty-two fraction bits. -/
  bits : UInt64
  deriving DecidableEq

namespace Binary64

/-- What the bits of a number stand for. -/
inductive Unpacked where
  | notANumber
  | infinite (negative : Bool)
  | finite (negative : Bool) (m : Nat) (q : Int)
  deriving DecidableEq

def unpack (x : Binary64) : Unpacked :=
  let n := x.bits.toNat
  let negative := decide (Nat.pow 2 63 ≤ n)
  let exponent : Nat := n / Nat.pow 2 52 % Nat.pow 2 11
  let fraction : Nat := n % Nat.pow 2 52
  if exponent = 2047 then
    if fraction = 0 then .infinite negative else .notANumber
  else if exponent = 0 then .finite negative fraction (-1074)
  else .finite negative (Nat.pow 2 52 + fraction) ((exponent : Int) - 1075)

def pack (negative : Bool) (exponent fraction : Nat) : Binary64 :=
  ⟨UInt64.ofNat ((if negative then Nat.pow 2 63 else 0) + exponent * Nat.pow 2 52 + fraction)⟩

def infinity (negative : Bool) : Binary64 := pack negative 2047 0

def notANumber : Binary64 := pack false 2047 (Nat.pow 2 51)

/-- `num / den` rounded to a whole number, a half to the even neighbour. -/
def roundDiv (num den : Nat) : Nat :=
  let quotient := num / den
  let twice := 2 * (num % den)
  if twice < den then quotient
  else if den < twice then quotient + 1
  else if quotient % 2 = 0 then quotient else quotient + 1

def scale (num den : Nat) (q : Int) : Nat × Nat :=
  if 0 ≤ q then (num, den * Nat.pow 2 q.toNat) else (num * Nat.pow 2 (-q).toNat, den)

def ofRatio (negative : Bool) (num den : Nat) : Binary64 :=
  if num = 0 || den = 0 then pack negative 0 0
  else
    -- `2 ^ (guess - 1) < num / den < 2 ^ (guess + 1)`
    let guess : Int := num.log2 - den.log2
    let (n, d) := scale num den guess
    let top : Int := if n < d then guess - 1 else guess
    if 1024 ≤ top then infinity negative
    else
      let q : Int := max (top - 52) (-1074)
      let (n, d) := scale num den q
      let m := roundDiv n d
      let (m, q) := if m = Nat.pow 2 53 then (Nat.pow 2 52, q + 1) else (m, q)
      if m < Nat.pow 2 52 then pack negative 0 m
      else if 972 ≤ q then infinity negative
      else pack negative (q + 1075).toNat (m - Nat.pow 2 52)

def ofInt (n : Int) : Binary64 := ofRatio (decide (n < 0)) n.natAbs 1

def ofDecimal (negative : Bool) (digits : Nat) (exponent : Int) : Binary64 :=
  if digits = 0 then pack negative 0 0
  else
    let size : Int := (Nat.toDigits 10 digits).length + exponent
    if 400 < size then infinity negative
    else if size < -400 then pack negative 0 0
    else if 0 ≤ exponent then ofRatio negative (digits * Nat.pow 10 exponent.toNat) 1
    else ofRatio negative digits (Nat.pow 10 (-exponent).toNat)

def isFinite (x : Binary64) : Bool :=
  match x.unpack with
  | .finite .. => true
  | _ => false

def toRatio? (x : Binary64) : Option (Int × Nat) :=
  match x.unpack with
  | .finite negative m q =>
    let signed : Int := if negative then -m else m
    if 0 ≤ q then some (signed * Nat.pow 2 q.toNat, 1) else some (signed, Nat.pow 2 (-q).toNat)
  | _ => none

def isNegative (x : Binary64) : Bool := decide (Nat.pow 2 63 ≤ x.bits.toNat)

/-- The number nearest to a signed ratio; zero takes the given sign. -/
def ofSignedRatio (num : Int) (den : Nat) (negativeZero : Bool) : Binary64 :=
  ofRatio (if num = 0 then negativeZero else decide (num < 0)) num.natAbs den

def neg (x : Binary64) : Binary64 := ⟨x.bits ^^^ ((1 : UInt64) <<< 63)⟩

def add (x y : Binary64) : Binary64 :=
  match x.unpack, y.unpack with
  | .notANumber, _ | _, .notANumber => notANumber
  | .infinite a, .infinite b => if a = b then infinity a else notANumber
  | .infinite a, _ | _, .infinite a => infinity a
  | _, _ => match x.toRatio?, y.toRatio? with
    | some (a, b), some (c, d) =>
      ofSignedRatio (a * d + c * b) (b * d) (x.isNegative && y.isNegative)
    | _, _ => notANumber

def sub (x y : Binary64) : Binary64 := x.add y.neg

def mul (x y : Binary64) : Binary64 :=
  let negative := x.isNegative != y.isNegative
  match x.toRatio?, y.toRatio? with
  | some (a, b), some (c, d) => ofSignedRatio (a * c) (b * d) negative
  | _, _ => match x.unpack, y.unpack with
    | .notANumber, _ | _, .notANumber => notANumber
    | .finite _ 0 _, _ | _, .finite _ 0 _ => notANumber
    | _, _ => infinity negative

def div (x y : Binary64) : Binary64 :=
  let negative := x.isNegative != y.isNegative
  match x.toRatio?, y.toRatio? with
  | some (a, b), some (c, d) =>
    ofSignedRatio (if c < 0 then -(a * d) else a * d) (b * c.natAbs) negative
  | _, _ => match x.unpack, y.unpack with
    | .notANumber, _ | _, .notANumber => notANumber
    | .infinite _, .infinite _ => notANumber
    | .infinite _, _ => infinity negative
    | _, _ => pack negative 0 0

def isZero (x : Binary64) : Bool :=
  match x.unpack with
  | .finite _ 0 _ => true
  | _ => false

/-- Both stand for the same number; the two zeros do, and what is no number equals nothing. -/
def same (x y : Binary64) : Bool :=
  x.unpack != .notANumber && (x == y || (x.isZero && y.isZero))

def sameInt (x : Binary64) (n : Int) : Bool :=
  match x.toRatio? with
  | some (a, b) => a == n * b
  | none => false

/-- Where a number lies among the ratios, infinities outside all of them. -/
inductive Place where
  | below
  | at (num : Int) (den : Nat)
  | above

def place? (x : Binary64) : Option Place :=
  match x.unpack with
  | .notANumber => none
  | .infinite negative => some (if negative then .below else .above)
  | .finite .. => x.toRatio?.map fun (a, b) => .at a b

def Place.less : Place → Place → Bool
  | .below, .below => false
  | .below, _ => true
  | .at .., .below => false
  | .at a b, .at c d => decide (a * d < c * b)
  | .at .., .above => true
  | .above, _ => false

def truncate? (x : Binary64) : Option Int := x.toRatio?.map fun (a, b) => a.tdiv b

def ceiling? (x : Binary64) : Option Int := x.toRatio?.map fun (a, b) => -((-a) / (b : Int))

end Binary64

end Flowscript
