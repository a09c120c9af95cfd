/-!
Finite binary floating point numbers of 64 bits, in exact integer arithmetic.

A number is `±mantissa · 2 ^ exponent`. The canonical form has 53 bits of mantissa, or fewer at
the smallest exponent. Zero keeps its sign. All rounding goes through `ofRatio`, which takes
the nearest number and, of two, the one with the even mantissa.
-/

namespace BindingSchema

structure Binary64 where
  negative : Bool
  mantissa : Nat
  exponent : Int
  deriving DecidableEq

namespace Binary64

def twoTo (n : Nat) : Nat := Nat.pow 2 n

def tenTo (n : Nat) : Nat := Nat.pow 10 n

def mantissaBits : Nat := 53

def minExponent : Int := -1074

def maxExponent : Int := 971

def zero (negative : Bool) : Binary64 := ⟨negative, 0, minExponent⟩

def isZero (x : Binary64) : Bool := x.mantissa == 0

/-- The magnitude is `numerator / denominator`. -/
def numerator (x : Binary64) : Nat := x.mantissa * twoTo x.exponent.toNat

def denominator (x : Binary64) : Nat := twoTo (-x.exponent).toNat

/-! ## Rounding -/

/-- The natural number nearest to `num / den`; of two, the even one. -/
def roundDiv (num den : Nat) : Nat :=
  let q := num / den
  let r := num % den
  if den < 2 * r ∨ (2 * r = den ∧ q % 2 = 1) then q + 1 else q

theorem roundDiv_mul_self {k den : Nat} (h : 0 < den) : roundDiv (k * den) den = k := by
  have hq : k * den / den = k := Nat.mul_div_cancel k h
  have hr : k * den % den = 0 := Nat.mul_mod_left k den
  simp only [roundDiv, hq, hr]
  split <;> omega

/-- The rounded quotient is at most half a unit away. -/
theorem roundDiv_near (num den : Nat) (h : 0 < den) :
    2 * num ≤ (2 * roundDiv num den + 1) * den ∧ 2 * roundDiv num den * den ≤ 2 * num + den := by
  have hd := Nat.div_add_mod num den
  have hr := Nat.mod_lt num h
  have hq : 2 * (num / den) * den = 2 * (den * (num / den)) := by
    rw [Nat.mul_assoc, Nat.mul_comm (num / den) den]
  simp only [roundDiv]
  split
  · simp only [Nat.mul_add, Nat.add_mul, hq]
    omega
  · simp only [Nat.add_mul, hq]
    omega

/-- `num / den` in units of `2 ^ exponent`. -/
def scaled (num den : Nat) (exponent : Int) : Nat × Nat :=
  (num * twoTo (-exponent).toNat, den * twoTo exponent.toNat)

/-- The exponent at which `num / den` has 53 bits, or the smallest one. -/
def exponentFor (num den : Nat) : Int :=
  let guess : Int := (Nat.log2 num : Int) - Nat.log2 den - (mantissaBits - 1 : Nat)
  let (n, d) := scaled num den guess
  let fitted := if n < twoTo (mantissaBits - 1) * d then guess - 1 else guess
  max fitted minExponent

/-- The number nearest to `num / den`, unless it is beyond the largest one. -/
def ofRatio (negative : Bool) (num den : Nat) : Option Binary64 :=
  if num = 0 then some (zero negative)
  else
    let exponent := exponentFor num den
    let (n, d) := scaled num den exponent
    let mantissa := roundDiv n d
    let (mantissa, exponent) :=
      if mantissa = twoTo mantissaBits then (twoTo (mantissaBits - 1), exponent + 1) else (mantissa, exponent)
    if maxExponent < exponent then none else some ⟨negative, mantissa, exponent⟩

def ofNat (n : Nat) : Option Binary64 := ofRatio false n 1

/-- `±coefficient · 10 ^ exponent`, rounded once. Far from the range of the format the answer is
known without the power of ten. -/
def ofDecimal (negative : Bool) (coefficient : Nat) (exponent : Int) : Option Binary64 :=
  let digits : Int := (Nat.toDigits 10 coefficient).length
  if coefficient = 0 then some (zero negative)
  else if 400 < digits + exponent then none
  else if digits + exponent < -400 then some (zero negative)
  else ofRatio negative (coefficient * tenTo exponent.toNat) (tenTo (-exponent).toNat)

def mul (x y : Binary64) : Option Binary64 :=
  ofRatio (x.negative != y.negative) (x.numerator * y.numerator) (x.denominator * y.denominator)

def div (x y : Binary64) : Option Binary64 :=
  ofRatio (x.negative != y.negative) (x.numerator * y.denominator) (x.denominator * y.numerator)

end Binary64

end BindingSchema
