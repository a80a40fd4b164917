import Flowscript.Number.Binary64

/-!
# Shortest decimal text of a number

A finite number is written with the fewest decimal digits that read back as the same number; of two
such decimals the nearer one is taken, and of two equally near ones the one with an even last digit.
The digits are found in exact arithmetic on `m * 2 ^ q`; where the point and the exponent stand is
the business of a `Layout`.
-/

namespace Flowscript.Decimal

structure Digits where
  digits : Nat
  /-- The power of ten of the last digit. -/
  exponent : Int
  deriving DecidableEq

/-- The reals that round to a number: from `low` to `high` over `den`, ends included or not. -/
structure Interval where
  low : Nat
  high : Nat
  den : Nat
  closed : Bool

def intervalOf (m : Nat) (q : Int) : Nat × Interval :=
  -- below a power of two the neighbour is only half as far
  let narrow := decide (m = Nat.pow 2 52) && decide (-1074 < q)
  let up := if 0 ≤ q then Nat.pow 2 q.toNat else 1
  let den := if 0 ≤ q then 4 else 4 * Nat.pow 2 (-q).toNat
  let value := 4 * m * up
  (value, { low := value - (if narrow then up else 2 * up), high := value + 2 * up, den,
            closed := decide (m % 2 = 0) })

def Interval.holds (i : Interval) (d : Nat) (e : Int) : Bool :=
  let (n, k) := if 0 ≤ e then (d * Nat.pow 10 e.toNat * i.den, 1)
    else (d * i.den, Nat.pow 10 (-e).toNat)
  if i.closed then decide (i.low * k ≤ n) && decide (n ≤ i.high * k)
  else decide (i.low * k < n) && decide (n < i.high * k)

def pick (value : Nat) (i : Interval) (d : Nat) (e : Int) : Option Digits :=
  match i.holds d e, i.holds (d + 1) e with
  | false, false => none
  | true, false => some ⟨d, e⟩
  | false, true => some ⟨d + 1, e⟩
  | true, true =>
    -- compare `2 * value` with the middle of the two candidates
    let (middle, k) :=
      if 0 ≤ e then ((2 * d + 1) * Nat.pow 10 e.toNat * i.den, 1)
      else ((2 * d + 1) * i.den, Nat.pow 10 (-e).toNat)
    let here := 2 * value * k
    if here < middle then some ⟨d, e⟩
    else if middle < here then some ⟨d + 1, e⟩
    else if d % 2 = 0 then some ⟨d, e⟩ else some ⟨d + 1, e⟩

def floorAt (num den : Nat) (e : Int) : Nat :=
  if 0 ≤ e then num / (den * Nat.pow 10 e.toNat) else num * Nat.pow 10 (-e).toNat / den

def magnitude (num den : Nat) : Int :=
  let guess : Int := (Nat.toDigits 10 num).length - (Nat.toDigits 10 den).length
  if floorAt num den guess = 0 then guess else guess + 1

/-- The first grid, from `count` digits on, that holds a decimal for the number. -/
def search (value : Nat) (i : Interval) (top : Int) : (fuel count : Nat) → Digits
  | 0, count => ⟨floorAt value i.den (top - count), top - count⟩
  | fuel + 1, count =>
    let e := top - count
    match pick value i (floorAt value i.den e) e with
    | some found => found
    | none => search value i top fuel (count + 1)

def Digits.normal (d : Digits) : Digits :=
  let zeros := ((Nat.toDigits 10 d.digits).reverse.takeWhile (· == '0')).length
  ⟨d.digits / Nat.pow 10 zeros, d.exponent + zeros⟩

/-- The shortest decimal that reads back as `m * 2 ^ q`, for `0 < m`. Seventeen digits always do. -/
def shortest (m : Nat) (q : Int) : Digits :=
  let (value, i) := intervalOf m q
  (search value i (magnitude value i.den) 17 1).normal

structure Layout where
  /-- Numbers are written without exponent from this place of the point on … -/
  lowestPoint : Int
  /-- … up to this one. -/
  highestPoint : Int
  /-- What follows a whole number that is written without exponent. -/
  wholeSuffix : String
  mark : String
  exponentWidth : Nat
  infinity : String
  notANumber : String

def Layout.place (l : Layout) (d : Digits) : String :=
  let text := Nat.toDigits 10 d.digits
  -- the value is `0.text * 10 ^ point`
  let point : Int := text.length + d.exponent
  let zeros (n : Int) : List Char := List.replicate n.toNat '0'
  if l.lowestPoint ≤ point && point ≤ l.highestPoint then
    if point ≤ 0 then String.ofList (['0', '.'] ++ zeros (-point) ++ text)
    else if text.length ≤ point then
      String.ofList (text ++ zeros (point - text.length)) ++ l.wholeSuffix
    else String.ofList (text.take point.toNat ++ ['.'] ++ text.drop point.toNat)
  else
    let exponent := point - 1
    let size := Nat.toDigits 10 exponent.natAbs
    let mantissa := match text with
      | [] => []
      | [c] => [c]
      | c :: rest => c :: '.' :: rest
    String.ofList mantissa ++ l.mark ++ (if exponent < 0 then "-" else "+") ++
      String.ofList (zeros (l.exponentWidth - size.length) ++ size)

end Flowscript.Decimal

namespace Flowscript.Binary64

def text (layout : Decimal.Layout) (x : Binary64) : String :=
  let sign (negative : Bool) : String := if negative then "-" else ""
  match x.unpack with
  | .notANumber => layout.notANumber
  | .infinite negative => sign negative ++ layout.infinity
  | .finite negative 0 _ => sign negative ++ "0" ++ layout.wholeSuffix
  | .finite negative m q => sign negative ++ layout.place (Decimal.shortest m q)

end Flowscript.Binary64
