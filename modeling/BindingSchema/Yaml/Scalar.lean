import BindingSchema.Value
import BindingSchema.Yaml.Cursor
import BindingSchema.Yaml.Token

/-!
What the text of a scalar means.

A plain scalar is null, a boolean, a number or, failing that, a string. A core tag asks for one of
these. Numerals with a superfluous zero in front are strings, and infinities and the like, which a
value cannot hold, are null.
-/

namespace BindingSchema

namespace Yaml

namespace Scalar

def isNull (text : String) : Bool := ["null", "Null", "NULL", "~"].contains text

def bool? (text : String) : Option Bool :=
  if ["true", "True", "TRUE"].contains text then some true
  else if ["false", "False", "FALSE"].contains text then some false
  else none

/-! ## Integers -/

def digitsValue? (radix : Nat) (digits : List Char) : Option Nat :=
  if digits.isEmpty then none
  else
    (digits.mapM hexValue?).bind fun values =>
      if values.all (· < radix) then some (values.foldl (fun n d => n * radix + d) 0) else none

/-- A digit after a leading zero, and digits only. -/
def hasLeadingZero : List Char → Bool
  | '0' :: c :: cs => (c :: cs).all isDigit
  | _ => false

def magnitude? : List Char → Option Nat
  | '0' :: 'x' :: digits => digitsValue? 16 digits
  | '0' :: 'o' :: digits => digitsValue? 8 digits
  | '0' :: 'b' :: digits => digitsValue? 2 digits
  | digits => if hasLeadingZero digits then none else digitsValue? 10 digits

/-- The sign is negative, and the text after it. -/
def splitSign : List Char → Bool × List Char
  | '-' :: cs => (true, cs)
  | '+' :: cs => (false, cs)
  | cs => (false, cs)

def int? (text : String) : Option Int :=
  let (isNegative, digits) := splitSign text.toList
  (magnitude? digits).map fun n => if isNegative then -n else n

/-- Integers of up to 128 bits are never read as doubles. -/
def isWide (n : Int) : Bool := -(Binary64.twoTo 127) ≤ n && n < Binary64.twoTo 128

/-! ## Doubles -/

inductive Double where
  | finite (x : Binary64)
  | infinite
  | undefined

/-- The point and exponent of a decimal numeral: digits, and the power of ten they are
multiplied with. -/
def decimal? (cs : List Char) : Option (List Char × Int) :=
  let whole := cs.takeWhile isDigit
  let rest := cs.dropWhile isDigit
  let (fraction, rest) := match rest with
    | '.' :: rest => (rest.takeWhile isDigit, rest.dropWhile isDigit)
    | rest => ([], rest)
  let digits := whole ++ fraction
  let shift : Int := fraction.length
  if digits.isEmpty then none
  else match rest with
    | [] => some (digits, -shift)
    | e :: rest =>
      if e != 'e' && e != 'E' then none
      else
        let (isNegative, power) := splitSign rest
        if power.isEmpty || !power.all isDigit then none
        else
          (digitsValue? 10 power).map fun n => (digits, (if isNegative then -n else n) - shift)

/-- A finite numeral is rounded once. -/
def double? (text : String) : Option Double :=
  if [".inf", ".Inf", ".INF", "+.inf", "+.Inf", "+.INF", "-.inf", "-.Inf", "-.INF"].contains text then
    some .infinite
  else if [".nan", ".NaN", ".NAN"].contains text then some .undefined
  else do
    let (isNegative, cs) := splitSign text.toList
    let (digits, power) ← decimal? cs
    let x ← Binary64.ofDecimal isNegative ((digitsValue? 10 digits).getD 0) power
    return .finite x

def Double.value : Double → Value
  | .finite x => .number (.double x)
  | .infinite | .undefined => .null

/-! ## Values -/

/-- The value of an integer, if it has 64 bits. -/
def intValue? (n : Int) : Option Value :=
  if Number.minInt ≤ n && n ≤ Number.maxInt then some (.number (.int n)) else none

/-- What a plain scalar without a tag means; an integer of more than 64 bits means nothing. -/
def plain (text : String) : Option Value :=
  if text == "" || isNull text then some .null
  else match bool? text with
    | some b => some (.bool b)
    | none =>
      let double :=
        if hasLeadingZero (splitSign text.toList).2 then none else double? text
      let other := match double with
        | some x => x.value
        | none => .string text
      match int? text with
      | some n => if isWide n then intValue? n else some other
      | none => some other

/-- What a scalar means that no tag speaks of. -/
def untagged (style : Style) (text : String) : Option Value :=
  if style = .plain then plain text else some (.string text)

/-- What a scalar means. A tag that is neither a core one nor marked makes a string of it. -/
def value? (tag? : Option Tag) (style : Style) (text : String) : Option Value :=
  match tag? with
  | none => untagged style text
  | some tag =>
    if tag.isMarked then untagged style text
    else if tag = .core ++ .ofText "bool" then (bool? text).map .bool
    else if tag = .core ++ .ofText "int" then (int? text).bind intValue?
    else if tag = .core ++ .ofText "float" then (double? text).map (·.value)
    else if tag = .core ++ .ofText "null" then if isNull text then some .null else none
    else some (.string text)

end Scalar

end Yaml

end BindingSchema
