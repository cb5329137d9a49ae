import ShaderGraph.Single

/-!
# Shortest decimals

A finite number is written with the fewest decimal digits that still round to
it. Multiples of a power of ten are tried from coarse to fine: the first power
with a multiple that rounds to the number gives the digits, of two such
multiples the nearer one, and the larger one when they are equally near.
-/

namespace ShaderGraph

/-- Compares `a * 10 ^ p` with `b * 2 ^ q`. -/
def compareScaled (a : Nat) (p : Int) (b : Nat) (q : Int) : Ordering :=
  compare (a * Nat.pow 10 p.toNat * Nat.pow 2 (-q).toNat)
    (b * Nat.pow 2 q.toNat * Nat.pow 10 (-p).toNat)

/-- A decimal `digits * 10 ^ exponent`. -/
structure Decimal where
  digits : Nat
  exponent : Int
  deriving DecidableEq, Repr

namespace Decimal

/-- The digits before and after the decimal point. A number below one has none before it, and
a whole number none after it. -/
def parts (d : Decimal) : List Char × List Char :=
  let ds := Nat.toDigits 10 d.digits
  if 0 ≤ d.exponent then (ds ++ List.replicate d.exponent.toNat '0', [])
  else
    let places := (-d.exponent).toNat
    if places < ds.length then (ds.take (ds.length - places), ds.drop (ds.length - places))
    else ([], List.replicate (places - ds.length) '0' ++ ds)

end Decimal

namespace Single

/-- Whether the decimal `n * 10 ^ p` rounds to the magnitude of a number. -/
def roundsFrom (x : Single) (n : Nat) (p : Int) : Bool :=
  let even := x.mantissa % 2 == 0
  (match compareScaled n p x.lowEnd (x.scale - 2) with
    | .lt => false
    | .eq => even
    | .gt => true) &&
  (match compareScaled n p x.highEnd (x.scale - 2) with
    | .lt => true
    | .eq => even
    | .gt => false)

def multiples (x : Single) (p : Int) : Nat :=
  x.mantissa * Nat.pow 2 x.scale.toNat * Nat.pow 10 (-p).toNat /
    (Nat.pow 10 p.toNat * Nat.pow 2 (-x.scale).toNat)

/-- The multiple of `10 ^ p` to write a number with, if one of its two neighbours among the
multiples rounds to it. -/
def onGrid? (x : Single) (p : Int) : Option Nat :=
  let n := x.multiples p
  match x.roundsFrom n p, x.roundsFrom (n + 1) p with
  | false, false => none
  | true, false => some n
  | false, true => some (n + 1)
  | true, true =>
    match compareScaled (2 * n + 1) p (2 * x.mantissa) x.scale with
    | .gt => some n
    | .eq | .lt => some (n + 1)

/-- The first hit among `steps` powers of ten, from `10 ^ p` down. -/
def searchGrids (x : Single) : Nat → Int → Decimal
  | 0, p => ⟨x.multiples p, p⟩
  | steps + 1, p =>
    match x.onGrid? p with
    | some n => ⟨n, p⟩
    | none => x.searchGrids steps (p - 1)

/-- The shortest decimal that rounds to a finite nonzero number, sign apart. Every finite
number is below `10 ^ 39`, and multiples of `10 ^ -60` lie closer than any two numbers. -/
def shortest (x : Single) : Decimal := x.searchGrids 99 39

/-- The shortest decimal, with a point only where a fraction follows. -/
def plainText (x : Single) : String :=
  if x.isNaN then "NaN"
  else
    (if x.negative then "-" else "") ++
      (if !x.isFinite then "inf"
      else if x.isZero then "0"
      else
        let (whole, fraction) := x.shortest.parts
        let whole := if whole.isEmpty then ['0'] else whole
        String.ofList (if fraction.isEmpty then whole else whole ++ '.' :: fraction))

/-- A text without the zero that stands before its point. -/
def withoutLeadingZero : List Char → List Char
  | '0' :: '.' :: fraction => '.' :: fraction
  | '-' :: '0' :: '.' :: fraction => '-' :: '.' :: fraction
  | text => text

/-- The plain text with a point: `0.` for both zeros, a point behind a whole number, and no zero
before the point of any other number. -/
def literalText (x : Single) : String :=
  if x.isZero then "0."
  else if x.isWhole then x.plainText ++ "."
  else String.ofList (withoutLeadingZero x.plainText.toList)

end Single

end ShaderGraph
