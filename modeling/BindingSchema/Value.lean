import BindingSchema.Keyed
import BindingSchema.Number

/-!
Untyped values: what a document is before anything is known about it.

Objects keep the order of their members. Readers build them with `Keyed.ofList`, so no object
they produce has a key twice (`Keyed.nodup_keys_ofList`).
-/

namespace BindingSchema

inductive Value where
  | null
  | bool (b : Bool)
  | number (n : Number)
  | string (s : String)
  | array (items : List Value)
  | object (members : List (String × Value))

namespace Value

instance : Inhabited Value := ⟨.null⟩

def ofNat (n : Nat) : Value := .number (.int n)

/-! ## Views -/

def asString? : Value → Option String
  | .string s => some s
  | _ => none

def asArray? : Value → Option (List Value)
  | .array items => some items
  | _ => none

def asObject? : Value → Option (List (String × Value))
  | .object members => some members
  | _ => none

def isNull : Value → Bool
  | .null => true
  | _ => false

def isObject : Value → Bool
  | .object _ => true
  | _ => false

/-- A member of an object; nothing else has members. -/
def get? : Value → String → Option Value
  | .object members, key => Keyed.get? members key
  | _, _ => none

/-- The member `key`, unless it is missing or null. -/
def present? (members : List (String × Value)) (key : String) : Option Value :=
  match Keyed.get? members key with
  | none => none
  | some .null => none
  | some v => some v

/-! ## Equality -/

mutual

def beq : Value → Value → Bool
  | .null, .null => true
  | .bool a, .bool b => a == b
  | .number a, .number b => a == b
  | .string a, .string b => a == b
  | .array a, .array b => beqItems a b
  | .object a, .object b => beqMembers a b
  | _, _ => false

def beqItems : List Value → List Value → Bool
  | [], [] => true
  | a :: as, b :: bs => beq a b && beqItems as bs
  | _, _ => false

def beqMembers : List (String × Value) → List (String × Value) → Bool
  | [], [] => true
  | (k, a) :: as, (l, b) :: bs => k == l && beq a b && beqMembers as bs
  | _, _ => false

end

instance : BEq Value := ⟨beq⟩

end Value

end BindingSchema
