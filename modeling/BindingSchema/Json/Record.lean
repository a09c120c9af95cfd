import BindingSchema.Decode
import BindingSchema.Json.Reader

/-!
Reading a record straight from JSON text.

Here a field that comes twice is an error, where an untyped object would keep the last value,
and every complaint about a field carries its place in the text. The values of unknown fields
are skipped: they must be well formed, but may be nested to any depth, and their numbers and
escapes are not looked into.
-/

namespace BindingSchema

namespace Json

/-! ## Skipping values -/

private def skipExponent (cur : Cursor) : Except Error Cursor :=
  let cur := cur.skip
  let cur := match cur.peek? with
    | some '+' | some '-' => cur.skip
    | _ => cur
  match takeDigits cur with
  | ([], _) => .error (cur.failNext .invalidNumber)
  | (_, after) => .ok after

private def skipFraction (cur : Cursor) : Except Error Cursor :=
  let cur := cur.skip
  match takeDigits cur with
  | ([], _) => .error (cur.failNext .invalidNumber)
  | (_, after) =>
    match after.peek? with
    | some 'e' | some 'E' => skipExponent after
    | _ => .ok after

def skipNumeral (cur : Cursor) : Except Error Cursor :=
  match takeDigits cur with
  | ([], _) => .error (cur.failNext .invalidNumber)
  | (ds, after) =>
    if ds.head? = some '0' ∧ 1 < ds.length then .error (cur.skip.failNext .invalidNumber)
    else match after.peek? with
      | some '.' => skipFraction after
      | some 'e' | some 'E' => skipExponent after
      | _ => .ok after

private def skipStringFrom : Nat → Cursor → Except Error Cursor
  | 0, cur => .error (cur.fail .endInString)
  | fuel + 1, cur =>
    match cur.peek? with
    | none => .error (cur.fail .endInString)
    | some '"' => .ok cur.skip
    | some '\\' =>
      let cur := cur.skip
      match cur.peek? with
      | none => .error (cur.fail .endInString)
      | some 'u' => do
        let (_, cur) ← readHex cur.skip
        skipStringFrom fuel cur
      | some c =>
        if ['"', '\\', '/', 'b', 'f', 'n', 'r', 't'].contains c then skipStringFrom fuel cur.skip
        else .error (cur.failNext .invalidEscape)
    | some c =>
      if c.toNat < 32 then .error (cur.fail .controlCharacter) else skipStringFrom fuel cur.skip

/-- After the opening quote. -/
def skipString (cur : Cursor) : Except Error Cursor := skipStringFrom (cur.rest.length + 1) cur

/-- A key and its colon; the cursor may be before blanks. -/
private def skipKey (cur : Cursor) : Except Error Cursor := do
  let cur := cur.skipBlanks
  match cur.peek? with
  | none => throw (cur.failNext .endInObject)
  | some '"' => readColon (← skipString cur.skip)
  | some _ => throw (cur.failNext .keyNotString)

mutual

def skipValue : Nat → Cursor → Except Error Cursor
  | 0, cur => .error (cur.failNext .tooDeep)
  | fuel + 1, cur =>
    let cur := cur.skipBlanks
    match cur.peek? with
    | none => .error (cur.failNext .endInValue)
    | some 'n' => readWord cur.skip ['u', 'l', 'l']
    | some 't' => readWord cur.skip ['r', 'u', 'e']
    | some 'f' => readWord cur.skip ['a', 'l', 's', 'e']
    | some '-' => skipNumeral cur.skip
    | some '"' => skipString cur.skip
    | some '[' =>
      let cur := cur.skip.skipBlanks
      match cur.peek? with
      | none => .error (cur.failNext .endInList)
      | some ']' => .ok cur.skip
      | some _ => skipItems fuel cur
    | some '\x7b' =>
      let cur := cur.skip.skipBlanks
      match cur.peek? with
      | none => .error (cur.failNext .endInObject)
      | some '\x7d' => .ok cur.skip
      | some _ => skipMembers fuel cur
    | some c => if isDigit c then skipNumeral cur else .error (cur.failNext .expectedValue)

/-- From an item to the closing bracket. -/
def skipItems : Nat → Cursor → Except Error Cursor
  | 0, cur => .error (cur.failNext .tooDeep)
  | fuel + 1, cur => do
    let cur := (← skipValue fuel cur).skipBlanks
    match cur.peek? with
    | none => throw (cur.failNext .endInList)
    | some ']' => return cur.skip
    | some ',' => skipItems fuel cur.skip
    | some _ => throw (cur.failNext .expectedListComma)

/-- From a key to the closing bracket. -/
def skipMembers : Nat → Cursor → Except Error Cursor
  | 0, cur => .error (cur.failNext .tooDeep)
  | fuel + 1, cur => do
    let cur ← skipKey cur
    let cur := (← skipValue fuel cur).skipBlanks
    match cur.peek? with
    | none => throw (cur.failNext .endInObject)
    | some '\x7d' => return cur.skip
    | some ',' => skipMembers fuel cur.skip
    | some _ => throw (cur.failNext .expectedObjectComma)

end

/-! ## Values of the wrong type -/

def failContent (cur : Cursor) (e : DecodeError) : Error := cur.fail (.content e.message)

/-- Scalars are read before the complaint; lists and objects are not. -/
def wrongType (expected : String) (cur : Cursor) : Error :=
  let complain (r : Except Error (Found × Cursor)) : Error :=
    match r with
    | .ok (found, cur) => failContent cur (.invalidType found expected)
    | .error e => e
  match cur.peek? with
  | some 'n' => complain do return (.null, ← readWord cur.skip ['u', 'l', 'l'])
  | some 't' => complain do return (.bool true, ← readWord cur.skip ['r', 'u', 'e'])
  | some 'f' => complain do return (.bool false, ← readWord cur.skip ['a', 'l', 's', 'e'])
  | some '-' => complain do
    let (n, cur) ← readNumeral true cur.skip
    return (.number n, cur)
  | some '"' => complain do
    let (s, cur) ← readString cur.skip
    return (.string s, cur)
  | some '[' => failContent cur (.invalidType .sequence expected)
  | some '\x7b' => failContent cur (.invalidType .map expected)
  | some c =>
    if isDigit c then complain do
      let (n, cur) ← readNumeral false cur
      return (.number n, cur)
    else cur.failNext .expectedValue
  | none => cur.failNext .expectedValue

/-- A field that is a string. -/
def readStringField (cur : Cursor) : Except Error (String × Cursor) :=
  let cur := cur.skipBlanks
  match cur.peek? with
  | none => .error (cur.failNext .endInValue)
  | some '"' => readString cur.skip
  | some _ => .error (wrongType "a string" cur)

/-! ## Records -/

/-- Reads a field into `σ`; the cursor is after the colon. -/
abbrev FieldReader (σ : Type) := String → σ → Cursor → Except Error (σ × Cursor)

/-- The complaint about a repeated field comes after what little else can be read. -/
private def duplicate (key : String) (cur : Cursor) : Error :=
  let cur := cur.skipBlanks
  failContent (if cur.peek? = some '\x7d' then cur.skip else cur) (.duplicateField key)

private def readFields (r : Decode.Record) (read : FieldReader σ) (first : Bool) (seen : List String)
    (s : σ) : Nat → Cursor → Except Error (σ × Cursor)
  | 0, cur => .error (cur.failNext .tooDeep)
  | fuel + 1, cur => do
    let (more, cur) ← moreMembers first cur
    if !more then return (s, cur.skip)
    let (key, cur) ← readString cur.skip
    if r.fields.contains key then
      if seen.contains key then throw (duplicate key cur)
      let (s, cur) ← read key s (← readColon cur)
      readFields r read false (key :: seen) s fuel cur
    else
      let cur ← readColon cur
      let cur ← skipValue (2 * cur.rest.length + 2) cur
      readFields r read false seen s fuel cur

/-- The end of a list after as many items as there are fields. -/
private def endOfFields (cur : Cursor) : Except Error Cursor :=
  let cur := cur.skipBlanks
  match cur.peek? with
  | none => .error (cur.failNext .endInList)
  | some ']' => .ok cur.skip
  | some ',' =>
    let cur := cur.skip.skipBlanks
    match cur.peek? with
    | some ']' => .error (cur.failNext .trailingComma)
    | _ => .error (cur.failNext .trailingCharacters)
  | some _ => .error (cur.failNext .trailingCharacters)

private def readListed (read : FieldReader σ) (first : Bool) (s : σ) :
    List String → Cursor → Except Error (σ × Cursor)
  | [], cur => return (s, ← endOfFields cur)
  | field :: fields, cur => do
    let (more, cur) ← moreItems first cur
    if !more then return (s, cur.skip)
    let (s, cur) ← read field s cur
    readListed read false s fields cur

/-- A record all of whose fields may be missing, as an object or as the list of its fields. -/
def readRecord (depth : Nat) (r : Decode.Record) (read : FieldReader σ) (s : σ) (cur : Cursor) :
    Except Error (σ × Cursor) :=
  let cur := cur.skipBlanks
  match cur.peek? with
  | none => .error (cur.failNext .endInValue)
  | some '[' =>
    if depth ≤ 1 then .error (cur.failNext .tooDeep)
    else readListed read true s r.fields cur.skip
  | some '\x7b' =>
    if depth ≤ 1 then .error (cur.failNext .tooDeep)
    else readFields r read true [] s (cur.rest.length + 1) cur.skip
  | some _ => .error (wrongType r.name cur)

/-- A field of any type. -/
def readAny (depth : Nat) (cur : Cursor) : Except Error (Value × Cursor) :=
  readValue depth (2 * cur.rest.length + 2) cur

end Json

end BindingSchema
