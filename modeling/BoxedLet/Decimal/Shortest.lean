import BoxedLet.Decimal.Binary64

/-!
# BoxedLet.Decimal.Shortest

The **shortest decimal** that reads back as a given double, and the way it is written.

The reals that round to the double `m · 2^q` form an interval around it, whose ends belong to it
when `m` is even. For `1, 2, …` digits the two neighbours of the value on the grid of that many
digits are tried; the first grid with a neighbour inside the interval wins. Of two neighbours
inside, the nearer one is taken, and the upper one if they are equally near.

All comparisons are between natural numbers: a number is kept as a fraction over a fixed
denominator.
-/

namespace BoxedLet.Decimal

/-- A decimal number `digits · 10^exponent`. -/
structure Scientific where
  digits : Nat
  exponent : Int
  deriving Repr, DecidableEq, Inhabited

/-- The reals that round to one double, as numerators over a common denominator. -/
structure Interval where
  denominator : Nat
  lower : Nat
  value : Nat
  upper : Nat
  /-- Whether the two ends round to the double, too. -/
  closed : Bool
  deriving Repr

/-- The interval of the double `m · 2^q`. Below a power of two the doubles are twice as dense, so
there the lower end is nearer. -/
def interval (m : Nat) (q : Int) : Interval :=
  let below := if m = hiddenBit ∧ q ≠ leastExponent then 1 else 2
  let scale := Nat.pow 2 q.toNat
  { denominator := 4 * Nat.pow 2 (-q).toNat
    lower := (4 * m - below) * scale
    value := 4 * m * scale
    upper := (4 * m + 2) * scale
    closed := m % 2 = 0 }

/-- Whether `numerator / denominator` lies in the interval. -/
def Interval.holds (i : Interval) (numerator denominator : Nat) : Bool :=
  let n := numerator * i.denominator
  if i.closed then i.lower * denominator ≤ n && n ≤ i.upper * denominator
  else i.lower * denominator < n && n < i.upper * denominator

/-- The number of decimal digits of a natural number; zero has none. -/
def digitCount (n : Nat) : Nat :=
  if n = 0 then 0 else (Nat.toDigits 10 n).length

/-- The decimal exponent of the leading digit of `numerator / denominator`, for a positive
numerator. -/
def leadingExponent (numerator denominator : Nat) : Int :=
  if denominator ≤ numerator then digitCount (numerator / denominator) - 1
  else -digitCount ((denominator - 1) / numerator)

/-- The better of the value's two neighbours on the grid of step `10^e`, if one lies in the
interval. -/
def Interval.onGrid? (i : Interval) (e : Int) : Option Nat :=
  let up := Nat.pow 10 e.toNat
  let down := Nat.pow 10 (-e).toNat
  -- the value is `scaled / step` steps of the grid
  let scaled := i.value * down
  let step := i.denominator * up
  let low := scaled / step
  let lowIn := i.holds (low * up) down
  let highIn := i.holds ((low + 1) * up) down
  let twice := 2 * (scaled % step)
  if lowIn && highIn then some (if twice < step then low else low + 1)
  else if lowIn then some low
  else if highIn then some (low + 1)
  else none

/-- Moves trailing zeros of the digits into the exponent; `fuel` bounds their number. -/
def Scientific.stripZeros : (fuel : Nat) → Scientific → Scientific
  | 0, s => s
  | fuel + 1, s =>
    if s.digits ≠ 0 ∧ s.digits % 10 = 0 then
      stripZeros fuel ⟨s.digits / 10, s.exponent + 1⟩
    else s

/-- The shortest decimal in the interval, looking at grids of up to seventeen digits. Seventeen
always suffice for a double. -/
def Interval.shortest (i : Interval) : Scientific :=
  let top := leadingExponent i.value i.denominator
  let grids := (List.range 17).map fun (n : Nat) => top - n
  let found := grids.findSome? fun e => (i.onGrid? e).map fun d => Scientific.mk d e
  (found.getD ⟨0, 0⟩).stripZeros 20

/-- The shortest decimal that reads back as `m · 2^q`. -/
def shortest (m : Nat) (q : Int) : Scientific :=
  if m = 0 then ⟨0, 0⟩ else (interval m q).shortest

/-! ### Written form -/

/-- Numbers whose leading digit has an exponent from `-5` down, or from `16` up, are written with
an exponent. -/
def isPositional (leading : Int) : Bool :=
  -5 < leading && leading < 16

/-- The digits `ds` with the leading one at `10^leading`, written without exponent and with at
least one digit on either side of the point. -/
def positional (ds : List Char) (leading : Int) : List Char :=
  if leading < 0 then
    '0' :: '.' :: List.replicate (-leading - 1).toNat '0' ++ ds
  else
    let whole := leading.toNat + 1
    let padded := ds ++ List.replicate (whole - ds.length) '0'
    let rest := padded.drop whole
    padded.take whole ++ '.' :: (if rest.isEmpty then ['0'] else rest)

/-- The digits `ds` with the leading one at `10^leading`, written as one digit, the others after a
point if there are any, and the exponent. -/
def exponential (ds : List Char) (leading : Int) : List Char :=
  let mantissa :=
    match ds with
    | d :: rest@(_ :: _) => d :: '.' :: rest
    | _ => ds
  mantissa ++ 'e' :: (toString leading).toList

/-- The text of a decimal number. -/
def Scientific.text (s : Scientific) : List Char :=
  let ds := Nat.toDigits 10 s.digits
  let leading := s.exponent + (ds.length - 1 : Nat)
  if isPositional leading then positional ds leading else exponential ds leading

/-- The text of a finite double. Zero keeps its sign. -/
def Finite.text (x : Finite) : String :=
  let digits := (shortest x.significand x.exponent).text
  String.ofList (if x.negative then '-' :: digits else digits)

end BoxedLet.Decimal
