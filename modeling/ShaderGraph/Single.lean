/-!
# Single precision numbers

A single precision number is its 32 bits: a sign, an exponent of 8 bits and a
fraction of 23. A finite number is a whole number times a power of two, and
the numbers that round to it form an interval around it, whose ends belong to
it exactly when its fraction is even.
-/

namespace ShaderGraph

structure Single where
  bits : UInt32
  deriving DecidableEq, Repr

namespace Single

def exponentBits (x : Single) : Nat := x.bits.toNat / 0x800000 % 0x100

def fractionBits (x : Single) : Nat := x.bits.toNat % 0x800000

def negative (x : Single) : Bool := decide (0x80000000 ≤ x.bits.toNat)

def isFinite (x : Single) : Bool := x.exponentBits != 255

def isNaN (x : Single) : Bool := x.exponentBits == 255 && x.fractionBits != 0

def isZero (x : Single) : Bool := x.exponentBits == 0 && x.fractionBits == 0

/-- A finite number is `mantissa * 2 ^ scale`, up to its sign. -/
def mantissa (x : Single) : Nat :=
  if x.exponentBits = 0 then x.fractionBits else 0x800000 + x.fractionBits

def scale (x : Single) : Int :=
  if x.exponentBits = 0 then -149 else (x.exponentBits : Int) - 150

/-- Whether a number has no digits after its binary point. -/
def isWhole (x : Single) : Bool :=
  x.isFinite && (decide (0 ≤ x.scale) || x.mantissa % Nat.pow 2 (-x.scale).toNat == 0)

/-- Equality of numbers: a NaN equals nothing and the two zeros are equal. -/
def equal (x y : Single) : Bool :=
  !x.isNaN && !y.isNaN && (x == y || x.isZero && y.isZero)

/-- The lower end of the interval that rounds to a number, in quarters of its last place.
Below a power of two the numbers lie twice as dense. -/
def lowEnd (x : Single) : Nat :=
  if x.fractionBits = 0 ∧ 1 < x.exponentBits then 4 * x.mantissa - 1 else 4 * x.mantissa - 2

def highEnd (x : Single) : Nat := 4 * x.mantissa + 2

def zero : Single := ⟨0⟩

def one : Single := ⟨0x3F800000⟩

end Single

end ShaderGraph
