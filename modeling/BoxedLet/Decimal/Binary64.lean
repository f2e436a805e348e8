/-!
# BoxedLet.Decimal.Binary64

The value of a **double** as exact numbers. A finite double is `±m · 2^q` with a natural
significand `m`; the other bit patterns are the two infinities and the NaNs.
-/

namespace BoxedLet.Decimal

/-- The doubles that have no literal. -/
inductive NonFinite
  | nan
  | positiveInfinity
  | negativeInfinity
  deriving Repr, DecidableEq, Inhabited

/-- The text of a double without a literal. -/
def NonFinite.text : NonFinite → String
  | nan => "NaN"
  | positiveInfinity => "inf"
  | negativeInfinity => "-inf"

/-- A finite double: `significand · 2^exponent`, negated if `negative`. -/
structure Finite where
  negative : Bool
  significand : Nat
  exponent : Int
  deriving Repr, DecidableEq, Inhabited

/-- The topmost of the 53 bits of a normal significand, which the bit pattern leaves out. -/
def hiddenBit : Nat := Nat.pow 2 52

/-- The sign bit of a bit pattern. -/
def signBit : Nat := Nat.pow 2 63

/-- The number of exponents in bit patterns. -/
def exponentCount : Nat := Nat.pow 2 11

/-- The exponent of the smallest doubles. -/
def leastExponent : Int := -1074

/-- Reads the three fields of a double's bit pattern. -/
def decodeBits (bits : Nat) : Except NonFinite Finite :=
  let negative := bits / signBit % 2 == 1
  let biased := bits / hiddenBit % exponentCount
  let fraction := bits % hiddenBit
  if biased + 1 = exponentCount then
    .error (if fraction ≠ 0 then .nan else if negative then .negativeInfinity
      else .positiveInfinity)
  else if biased = 0 then
    .ok ⟨negative, fraction, leastExponent⟩
  else
    .ok ⟨negative, hiddenBit + fraction, leastExponent + ((biased - 1 : Nat) : Int)⟩

/-- The exact value of a double. -/
def decode (x : Float) : Except NonFinite Finite :=
  decodeBits x.toBits.toNat

end BoxedLet.Decimal
