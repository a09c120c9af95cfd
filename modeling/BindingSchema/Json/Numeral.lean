import BindingSchema.Json.Cursor
import BindingSchema.Number

/-!
Numerals.

Digits are gathered into a significand of 64 bits. Once it is full, further digits before the
point only count towards the exponent, and further digits after the point are dropped. An
integer of 64 bits stays an integer; every other numeral becomes a double, by one
multiplication with or division by a power of ten. The doubles so obtained can differ from the
nearest one in the last place.
-/

namespace BindingSchema

namespace Json

def isDigit (c : Char) : Bool := '0' ≤ c && c ≤ '9'

def digitValue (c : Char) : Nat := c.toNat - 48

def maxSignificand : Nat := 18446744073709551615

def maxExponentValue : Nat := 2147483647

/-- Takes digits while the value stays within `bound`; the rest comes back untouched. -/
def gather (bound acc : Nat) : List Char → Nat × List Char
  | [] => (acc, [])
  | c :: cs =>
    let next := acc * 10 + digitValue c
    if next ≤ bound then gather bound next cs else (acc, c :: cs)

/-- The digits at the cursor. -/
def takeDigits (cur : Cursor) : List Char × Cursor :=
  let ds := cur.rest.takeWhile isDigit
  (ds, { cur with rest := cur.rest.drop ds.length, column := cur.column + ds.length })

def powerOfTen (n : Nat) : Binary64 := (Binary64.ofNat (Binary64.tenTo n)).getD (.zero false)

/-- Larger powers of ten are divided out one at a time, until nothing is left. -/
def scaleDown (x : Binary64) (exponent : Nat) : Binary64 :=
  if exponent ≤ 308 then (x.div (powerOfTen exponent)).getD (.zero false)
  else if x.isZero then x
  else scaleDown ((x.div (powerOfTen 308)).getD (.zero false)) (exponent - 308)
termination_by exponent
decreasing_by omega

/-- `significand · 10 ^ exponent`, or nothing when that is beyond every double. -/
def doubleOf? (significand : Nat) (exponent : Int) : Option Binary64 := do
  let x ← Binary64.ofNat significand
  if exponent < 0 then some (scaleDown x exponent.natAbs)
  else if exponent ≤ 308 then x.mul (powerOfTen exponent.toNat)
  else if x.isZero then some x
  else none

def finishDouble (negative : Bool) (significand : Nat) (exponent : Int) (cur : Cursor) : Except Error (Number × Cursor) :=
  match doubleOf? significand exponent with
  | none => .error (cur.fail .numberOutOfRange)
  | some x => .ok (.double { x with negative := negative }, cur)

/-- From the `e` on. -/
def readExponent (negative : Bool) (significand : Nat) (exponent : Int) (cur : Cursor) : Except Error (Number × Cursor) :=
  let cur := cur.skip
  let (down, cur) := match cur.peek? with
    | some '+' => (false, cur.skip)
    | some '-' => (true, cur.skip)
    | _ => (false, cur)
  match takeDigits cur with
  | ([], _) =>
    match cur.peek? with
    | none => .error (cur.fail .endInValue)
    | some _ => .error (cur.failNext .invalidNumber)
  | (ds, after) =>
    match gather maxExponentValue 0 ds with
    | (e, []) => finishDouble negative significand (if down then exponent - e else exponent + e) after
    | (_, left) =>
      if significand ≠ 0 ∧ down = false then
        let read := ds.length - left.length + 1
        .error ⟨.numberOutOfRange, cur.line, cur.column + read⟩
      else .ok (.double (.zero negative), after)

/-- From the point on. -/
def readFraction (negative : Bool) (significand : Nat) (exponent : Int) (cur : Cursor) : Except Error (Number × Cursor) :=
  let cur := cur.skip
  match takeDigits cur with
  | ([], _) =>
    match cur.peek? with
    | none => .error (cur.failNext .endInValue)
    | some _ => .error (cur.failNext .invalidNumber)
  | (ds, after) =>
    let (significand, left) := gather maxSignificand significand ds
    let exponent := exponent - (ds.length - left.length : Nat)
    match after.peek? with
    | some 'e' | some 'E' => readExponent negative significand exponent after
    | _ => finishDouble negative significand exponent after

/-- A numeral without point and exponent. -/
def integerOf (negative : Bool) (significand : Nat) : Number :=
  if negative then
    if significand = 0 then .double (.zero true)
    else if significand ≤ Number.minInt.natAbs then .int (-(significand : Int))
    else .double { (Binary64.ofNat significand).getD (.zero true) with negative := true }
  else .int significand

/-- From the first digit on. -/
def readNumeral (negative : Bool) (cur : Cursor) : Except Error (Number × Cursor) :=
  match takeDigits cur with
  | ([], _) =>
    match cur.peek? with
    | none => .error (cur.fail .endInValue)
    | some _ => .error (cur.failNext .invalidNumber)
  | (ds, after) =>
    if ds.head? = some '0' ∧ 1 < ds.length then .error (cur.skip.failNext .invalidNumber)
    else
      let (significand, left) := gather maxSignificand 0 ds
      let exponent : Int := left.length
      match after.peek? with
      | some '.' => readFraction negative significand exponent after
      | some 'e' | some 'E' => readExponent negative significand exponent after
      | _ =>
        if left.isEmpty then .ok (integerOf negative significand, after)
        else finishDouble negative significand exponent after

end Json

end BindingSchema
