import BindingSchema.Binary64.Shortest

/-!
Numbers of a document and their texts.

A number is an integer of 64 bits, signed or not, or a double. The text of a double has the
fewest digits that read back, and an exponent where the magnitude is large or small. It always
has a point or an exponent, so it never reads as an integer.
-/

namespace BindingSchema

inductive Number where
  | int (n : Int)
  | double (x : Binary64)
  deriving DecidableEq

namespace Number

/-- The least signed integer of 64 bits. -/
def minInt : Int := -9223372036854775808

/-- The largest unsigned integer of 64 bits. -/
def maxInt : Int := 18446744073709551615

/-! ## Texts of doubles -/

private def zeros (n : Nat) : String := String.ofList (List.replicate n '0')

/-- `digits` with the point after the first `point` of them, `0 < point`. -/
private def withPoint (digits : String) (point : Nat) : String :=
  let cs := digits.toList
  if cs.length ≤ point then digits ++ zeros (point - cs.length) ++ ".0"
  else String.ofList (cs.take point) ++ "." ++ String.ofList (cs.drop point)

/-- `digits` below one, with `gap` zeros after the point. -/
private def belowOne (digits : String) (gap : Nat) : String := "0." ++ zeros gap ++ digits

/-- One digit before the point, and the exponent with its sign. -/
private def scientific (digits : String) (exponent : Int) : String :=
  let coefficient := match digits.toList with
    | [] => "0"
    | [d] => String.singleton d
    | d :: ds => String.singleton d ++ "." ++ String.ofList ds
  coefficient ++ (if exponent < 0 then "e-" else "e+") ++ toString exponent.natAbs

private def signed (x : Binary64) (magnitude : String) : String :=
  if x.negative then "-" ++ magnitude else magnitude

/-- Where the point stands, counted from the first digit. -/
private def pointOf (d : Decimal) : Int := (toString d.coefficient).length + d.exponent

/-- Positional from `0.00001` up to sixteen digits before the point, else with an exponent. -/
def doubleText (x : Binary64) : String :=
  if x.isZero then signed x "0.0"
  else
    let d := x.shortest
    let digits := toString d.coefficient
    let point := pointOf d
    signed x <|
      if 0 < point ∧ point ≤ 16 then withPoint digits point.toNat
      else if -5 < point ∧ point ≤ 0 then belowOne digits (-point).toNat
      else scientific digits (point - 1)

/-! ## Texts of numbers -/

def text : Number → String
  | .int n => toString n
  | .double x => doubleText x

end Number

end BindingSchema
