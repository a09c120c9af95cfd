import BindingSchema.Json.Numeral
import BindingSchema.Value

/-!
From JSON text to a value.

The reader is strict: no comments, no commas before a closing bracket, nothing after the
value, and at most `maxDepth - 1` lists and objects inside each other. A key that comes twice
keeps its first place and its last value. Every recursive call has used up a character since
the last but one, so twice the length of the text bounds the recursion.
-/

namespace BindingSchema

namespace Json

def maxDepth : Nat := 128

/-! ## Words and strings -/

/-- The rest of `null`, `true` or `false`. -/
def readWord (cur : Cursor) : List Char → Except Error Cursor
  | [] => .ok cur
  | w :: ws =>
    match cur.peek? with
    | none => .error (cur.fail .endInValue)
    | some c => if c = w then readWord cur.skip ws else .error (cur.failNext .expectedWord)

def hexValue? (c : Char) : Option Nat :=
  if isDigit c then some (c.toNat - 48)
  else if 'a' ≤ c && c ≤ 'f' then some (c.toNat - 87)
  else if 'A' ≤ c && c ≤ 'F' then some (c.toNat - 55)
  else none

/-- Four hexadecimal digits. -/
def readHex (cur : Cursor) : Except Error (Nat × Cursor) :=
  match cur.skipBytes 4 with
  | none => .error (cur.finish.fail .endInString)
  | some after =>
    match (cur.rest.take 4).mapM hexValue? with
    | some [a, b, c, d] => .ok (((a * 16 + b) * 16 + c) * 16 + d, after)
    | _ => .error (after.fail .invalidEscape)

/-- The second half of a surrogate pair, after the half `high`. -/
def readSurrogate (high : Nat) (cur : Cursor) : Except Error (Char × Cursor) := do
  let expect (cur : Cursor) (c : Char) : Except Error Cursor :=
    match cur.peek? with
    | none => .error (cur.fail .endInString)
    | some d => if d = c then .ok cur.skip else .error (cur.failNext .unfinishedSurrogate)
  let cur ← expect cur '\\'
  let cur ← expect cur 'u'
  let (low, cur) ← readHex cur
  if 0xDC00 ≤ low ∧ low ≤ 0xDFFF then
    return (Char.ofNat (0x10000 + (high - 0xD800) * 0x400 + (low - 0xDC00)), cur)
  throw (cur.fail .loneSurrogate)

/-- An escape, after its backslash. -/
def readEscape (cur : Cursor) : Except Error (Char × Cursor) :=
  match cur.peek? with
  | none => .error (cur.fail .endInString)
  | some '"' => .ok ('"', cur.skip)
  | some '\\' => .ok ('\\', cur.skip)
  | some '/' => .ok ('/', cur.skip)
  | some 'b' => .ok ('\x08', cur.skip)
  | some 'f' => .ok ('\x0c', cur.skip)
  | some 'n' => .ok ('\n', cur.skip)
  | some 'r' => .ok ('\r', cur.skip)
  | some 't' => .ok ('\t', cur.skip)
  | some 'u' => do
    let (n, cur) ← readHex cur.skip
    if 0xDC00 ≤ n ∧ n ≤ 0xDFFF then throw (cur.fail .loneSurrogate)
    if 0xD800 ≤ n ∧ n ≤ 0xDBFF then readSurrogate n cur
    else return (Char.ofNat n, cur)
  | some _ => .error (cur.failNext .invalidEscape)

/-- The rest of a string, after its opening quote. `read` holds what came before, reversed. -/
def readStringFrom (read : List Char) : Nat → Cursor → Except Error (String × Cursor)
  | 0, cur => .error (cur.fail .endInString)
  | fuel + 1, cur =>
    match cur.peek? with
    | none => .error (cur.fail .endInString)
    | some '"' => .ok (String.ofList read.reverse, cur.skip)
    | some '\\' => do
      let (c, cur) ← readEscape cur.skip
      readStringFrom (c :: read) fuel cur
    | some c =>
      if c.toNat < 32 then .error (cur.failNext .controlCharacter)
      else readStringFrom (c :: read) fuel cur.skip

def readString (cur : Cursor) : Except Error (String × Cursor) := readStringFrom [] (cur.rest.length + 1) cur

/-! ## Lists and objects -/

/-- Whether another item follows. The cursor stops before it, or before the bracket. -/
def moreItems (first : Bool) (cur : Cursor) : Except Error (Bool × Cursor) :=
  let cur := cur.skipBlanks
  match cur.peek? with
  | none => .error (cur.failNext .endInList)
  | some ']' => .ok (false, cur)
  | some c =>
    if first then .ok (true, cur)
    else if c = ',' then
      let cur := cur.skip.skipBlanks
      match cur.peek? with
      | none => .error (cur.failNext .endInValue)
      | some ']' => .error (cur.failNext .trailingComma)
      | some _ => .ok (true, cur)
    else .error (cur.failNext .expectedListComma)

/-- Whether another member follows. The cursor stops before its key, or before the bracket. -/
def moreMembers (first : Bool) (cur : Cursor) : Except Error (Bool × Cursor) :=
  let cur := cur.skipBlanks
  match cur.peek? with
  | none => .error (cur.failNext .endInObject)
  | some '\x7d' => .ok (false, cur)
  | some c =>
    if first then
      if c = '"' then .ok (true, cur) else .error (cur.failNext .keyNotString)
    else if c = ',' then
      let cur := cur.skip.skipBlanks
      match cur.peek? with
      | none => .error (cur.failNext .endInValue)
      | some '"' => .ok (true, cur)
      | some '\x7d' => .error (cur.failNext .trailingComma)
      | some _ => .error (cur.failNext .keyNotString)
    else .error (cur.failNext .expectedObjectComma)

/-- The colon after a key. -/
def readColon (cur : Cursor) : Except Error Cursor :=
  let cur := cur.skipBlanks
  match cur.peek? with
  | none => .error (cur.failNext .endInObject)
  | some ':' => .ok cur.skip
  | some _ => .error (cur.failNext .expectedColon)

/-- A key and its colon; the cursor is before the key's quote. -/
def readKey (cur : Cursor) : Except Error (String × Cursor) := do
  let (key, cur) ← readString cur.skip
  let cur ← readColon cur
  return (key, cur)

mutual

/-- A value with at most `depth - 1` brackets inside each other. -/
def readValue (depth : Nat) : Nat → Cursor → Except Error (Value × Cursor)
  | 0, cur => .error (cur.failNext .tooDeep)
  | fuel + 1, cur =>
    let cur := cur.skipBlanks
    match cur.peek? with
    | none => .error (cur.failNext .endInValue)
    | some 'n' => do return (.null, ← readWord cur.skip ['u', 'l', 'l'])
    | some 't' => do return (.bool true, ← readWord cur.skip ['r', 'u', 'e'])
    | some 'f' => do return (.bool false, ← readWord cur.skip ['a', 'l', 's', 'e'])
    | some '-' => do
      let (n, cur) ← readNumeral true cur.skip
      return (.number n, cur)
    | some '"' => do
      let (s, cur) ← readString cur.skip
      return (.string s, cur)
    | some '[' => do
      if depth ≤ 1 then throw (cur.failNext .tooDeep)
      let (items, cur) ← readItems (depth - 1) true [] fuel cur.skip
      return (.array items, cur.skip)
    | some '\x7b' => do
      if depth ≤ 1 then throw (cur.failNext .tooDeep)
      let (members, cur) ← readMembers (depth - 1) true [] fuel cur.skip
      return (.object (Keyed.ofList members), cur.skip)
    | some c =>
      if isDigit c then do
        let (n, cur) ← readNumeral false cur
        return (.number n, cur)
      else .error (cur.failNext .expectedValue)

/-- The items up to the closing bracket; `read` holds the earlier ones, reversed. -/
def readItems (depth : Nat) (first : Bool) (read : List Value) : Nat → Cursor → Except Error (List Value × Cursor)
  | 0, cur => .error (cur.failNext .tooDeep)
  | fuel + 1, cur => do
    let (more, cur) ← moreItems first cur
    if !more then return (read.reverse, cur)
    let (item, cur) ← readValue depth fuel cur
    readItems depth false (item :: read) fuel cur

/-- The members up to the closing bracket; `read` holds the earlier ones, reversed. -/
def readMembers (depth : Nat) (first : Bool) (read : List (String × Value)) :
    Nat → Cursor → Except Error (List (String × Value) × Cursor)
  | 0, cur => .error (cur.failNext .tooDeep)
  | fuel + 1, cur => do
    let (more, cur) ← moreMembers first cur
    if !more then return (read.reverse, cur)
    let (key, cur) ← readKey cur
    let (value, cur) ← readValue depth fuel cur
    readMembers depth false ((key, value) :: read) fuel cur

end

/-! ## Whole texts -/

/-- Nothing but blanks may follow. -/
def atEnd (cur : Cursor) : Except Error Unit :=
  let cur := cur.skipBlanks
  match cur.peek? with
  | none => .ok ()
  | some _ => .error (cur.failNext .trailingCharacters)

def parse (text : String) : Except Error Value := do
  let cur := Cursor.start text
  let (value, cur) ← readValue maxDepth (2 * cur.rest.length + 2) cur
  atEnd cur
  return value

end Json

end BindingSchema
