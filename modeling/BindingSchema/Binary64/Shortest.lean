import BindingSchema.Binary64

/-!
The shortest decimal that reads back as a given number.

The reals that round to a number form an interval around it, with its ends when the mantissa is
even. Grids of 1, 2, … 17 significant digits are tried in turn. On each grid the two neighbours
of the number are tested against the interval in exact arithmetic. The first grid with a hit
wins; of two hits the nearer is taken, and of two equally near the even one.
-/

namespace BindingSchema

/-- `coefficient · 10 ^ exponent`. -/
structure Decimal where
  coefficient : Nat
  exponent : Int
  deriving DecidableEq

namespace Decimal

/-- The same value with no trailing zero in the coefficient. -/
def strip (coefficient : Nat) (exponent : Int) : Decimal :=
  if h : coefficient = 0 ∨ coefficient % 10 ≠ 0 then ⟨coefficient, exponent⟩
  else strip (coefficient / 10) (exponent + 1)
termination_by coefficient
decreasing_by omega

end Decimal

namespace Binary64

/-- Bounds and value in units of a quarter of the last place. -/
structure Interval where
  low : Nat
  value : Nat
  high : Nat
  closed : Bool
  /-- The unit is `2 ^ exponent`. -/
  exponent : Int

/-- Below a power of two the next number is half as far away. -/
def interval (x : Binary64) : Interval :=
  let m := x.mantissa
  let low := if m = twoTo (mantissaBits - 1) ∧ minExponent < x.exponent then 4 * m - 1 else 4 * m - 2
  ⟨low, 4 * m, 4 * m + 2, m % 2 == 0, x.exponent - 2⟩

/-- `c · 10 ^ place`, to be compared with `binary i place v`. -/
def decimal (i : Interval) (place : Int) (c : Nat) : Nat :=
  c * tenTo place.toNat * twoTo (-i.exponent).toNat

def binary (i : Interval) (place : Int) (v : Nat) : Nat :=
  v * twoTo i.exponent.toNat * tenTo (-place).toNat

/-- Whether `c · 10 ^ place` rounds to the number. -/
def readsBack (i : Interval) (place : Int) (c : Nat) : Bool :=
  let d := decimal i place c
  let low := binary i place i.low
  let high := binary i place i.high
  if i.closed then low ≤ d && d ≤ high else low < d && d < high

/-- The neighbour on the grid `10 ^ place` that reads back and is nearest. -/
def onGrid (i : Interval) (place : Int) : Option Nat :=
  let v := binary i place i.value
  let below := v / decimal i place 1
  let above := below + 1
  match readsBack i place below, readsBack i place above with
  | true, true =>
    let toBelow := v - decimal i place below
    let toAbove := decimal i place above - v
    if toBelow < toAbove || (toBelow == toAbove && below % 2 == 0) then some below else some above
  | true, false => some below
  | false, true => some above
  | false, false => none

/-- The place of the leading decimal digit. -/
def leadingPlace (x : Binary64) : Int :=
  let i := interval x
  let guess := ((Nat.log2 x.mantissa : Int) + x.exponent) * 30103 / 100000
  if decimal i (guess + 1) 1 ≤ binary i (guess + 1) i.value then guess + 1
  else if binary i guess i.value < decimal i guess 1 then guess - 1
  else guess

/-- Seventeen digits always suffice, so the search finds a grid. -/
def shortest (x : Binary64) : Decimal :=
  if x.isZero then ⟨0, 0⟩
  else
    let i := interval x
    let lead := leadingPlace x
    let grids := (List.range 17).map fun (n : Nat) => lead - n
    match grids.findSome? fun place => (onGrid i place).map fun c => (c, place) with
    | some (c, place) => Decimal.strip c place
    | none => Decimal.strip (x.mantissa * twoTo x.exponent.toNat) 0

end Binary64

end BindingSchema
