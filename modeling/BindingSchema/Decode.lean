import BindingSchema.Text.Quoted
import BindingSchema.Value

/-!
From untyped values to records, and what is reported when a value does not fit.

A record may be written as an object, whose unknown members are passed over, or as the list of
its fields in the order of their declaration. Reading stops at the first field that does not
fit, in the order of the document; fields that are missing are noticed last.

A record whose members share their object with those of another one is *set aside* until the
other's have been read. It may then no longer be written as a list. Values set aside report a
list that is too long in other words, and let an empty object stand for the null payload of a
word.
-/

namespace BindingSchema

/-! ## Errors -/

/-- The kind of value met, as messages show it. -/
inductive Found where
  | null
  | bool (b : Bool)
  | number (n : Number)
  | string (s : String)
  | sequence
  | map
  deriving DecidableEq

namespace Found

def of : Value → Found
  | .null => .null
  | .bool b => .bool b
  | .number n => .number n
  | .string s => .string s
  | .array _ => .sequence
  | .object _ => .map

def text : Found → String
  | .null => "null"
  | .bool true => "boolean `true`"
  | .bool false => "boolean `false`"
  | .number (.int n) => "integer `" ++ toString n ++ "`"
  | .number (.double x) => "floating point `" ++ Number.doubleText x ++ "`"
  | .string s => "string " ++ Text.quoted s
  | .sequence => "sequence"
  | .map => "map"

end Found

inductive DecodeError where
  | missingField (name : String)
  | duplicateField (name : String)
  | unknownVariant (found : String) (expected : List String)
  | invalidType (found : Found) (expected : String)
  | invalidValue (found : Found) (expected : String)
  | invalidLength (length : Nat) (expected : String)
  deriving DecidableEq

namespace DecodeError

private def ticked (s : String) : String := "`" ++ s ++ "`"

private def oneOf : List String → String
  | [] => "there are no variants"
  | [a] => "expected " ++ ticked a
  | [a, b] => "expected " ++ ticked a ++ " or " ++ ticked b
  | names => "expected one of " ++ ", ".intercalate (names.map ticked)

def message : DecodeError → String
  | .missingField name => "missing field " ++ ticked name
  | .duplicateField name => "duplicate field " ++ ticked name
  | .unknownVariant found expected => "unknown variant " ++ ticked found ++ ", " ++ oneOf expected
  | .invalidType found expected => "invalid type: " ++ found.text ++ ", expected " ++ expected
  | .invalidValue found expected => "invalid value: " ++ found.text ++ ", expected " ++ expected
  | .invalidLength length expected =>
    "invalid length " ++ toString length ++ ", expected " ++ expected

end DecodeError

namespace Decode

abbrev Result := Except DecodeError

/-- Where a value comes from. -/
inductive Source where
  | inPlace
  | setAside
  deriving DecidableEq

def mismatch (v : Value) (expected : String) : DecodeError := .invalidType (.of v) expected

/-! ## Scalars -/

def string : Value → Result String
  | .string s => .ok s
  | v => .error (mismatch v "a string")

def bool : Value → Result Bool
  | .bool b => .ok b
  | v => .error (mismatch v "a boolean")

/-- A place in a list. -/
def index : Value → Result Nat
  | .number (.int n) =>
    if 0 ≤ n then .ok n.toNat else .error (.invalidValue (.number (.int n)) "usize")
  | v => .error (mismatch v "usize")

/-! ## Words -/

def lookupWord (words : List (String × α)) (word : String) : Result α :=
  match Keyed.get? words word with
  | some a => .ok a
  | none => .error (.unknownVariant word (Keyed.keys words))

/-- The payload of a word that carries nothing. -/
def unit (source : Source) : Value → Result Unit
  | .null => .ok ()
  | .object [] => if source = .setAside then .ok () else .error (.invalidType .map "unit")
  | v => .error (mismatch v "unit")

/-- One of a list of words: the word, or an object with the word as its only key. -/
def word (source : Source) (words : List (String × α)) : Value → Result α
  | .string s => lookupWord words s
  | .object [(s, payload)] => do
    let a ← lookupWord words s
    unit source payload
    return a
  | .object _ => .error (.invalidValue .map "map with a single key")
  | v => .error (mismatch v "string or map")

/-! ## Lists and maps -/

/-- Null stands for a value that is left out. -/
def optional (read : Value → Result α) : Value → Result (Option α)
  | .null => .ok none
  | v => (read v).map some

def list (read : Value → Result α) : Value → Result (List α)
  | .array items => items.mapM read
  | v => .error (mismatch v "a sequence")

/-- As `list`, with null for the empty one. -/
def listOrNull (read : Value → Result α) : Value → Result (List α)
  | .null => .ok []
  | v => list read v

def map (read : Value → Result α) : Value → Result (Keyed α)
  | .object members => members.mapM fun m => (read m.2).map (m.1, ·)
  | v => .error (mismatch v "a map")

/-- A map under names of the author's choice. It may be null, and so may its entries, which then
have all their fields left out. -/
def named (absent : α) (read : Value → Result α) : Value → Result (Keyed α)
  | .null => .ok []
  | v => map (fun
    | .null => .ok absent
    | entry => read entry) v

/-! ## Records -/

/-- A record as messages call it, with its fields in the order of declaration. -/
structure Record where
  name : String
  fields : List String

namespace Record

/-- A list has no item for a field that cannot be left out. -/
def tooShort (r : Record) (length : Nat) : DecodeError :=
  .invalidLength length (r.name ++ " with " ++ toString r.fields.length ++ " elements")

def tooLong (r : Record) (source : Source) (length : Nat) : DecodeError :=
  match source with
  | .inPlace => .invalidLength length "fewer elements in array"
  | .setAside => .invalidLength length (toString r.fields.length ++ " elements in sequence")

/-- Reads field after field into `s`. `step` passes over the names it does not know. -/
def fold (r : Record) (source : Source) (step : σ → String → Value → Result σ) (s : σ) :
    Value → Result σ
  | .object members => members.foldlM (fun s m => step s m.1 m.2) s
  | .array items => do
    let s ← (r.fields.zip items).foldlM (fun s m => step s m.1 m.2) s
    if r.fields.length < items.length then throw (r.tooLong source items.length)
    return s
  | v => .error (mismatch v r.name)

/-- A field that cannot be left out, of a record written as `v`. -/
def require (r : Record) (v : Value) (field : String) : Option α → Result α
  | some a => .ok a
  | none =>
    match v with
    | .array items => .error (r.tooShort items.length)
    | _ => .error (.missingField field)

end Record

end Decode

end BindingSchema
