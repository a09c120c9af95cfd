import BindingSchema.Yaml.Cursor
import BindingSchema.Yaml.Token

/-!
What stands beside the content of a document: anchors, tags and directives.
-/

namespace BindingSchema

namespace Yaml

/-! ## Anchors -/

def endsAnchor : Option Char → Bool
  | none => true
  | some c => separates (some c) || ['?', ':', ',', ']', '\x7d', '%', '@', '\x60'].contains c

/-- The name of an anchor or alias, after its mark. -/
def readAnchor (cur : Cursor) : Option (String × Cursor) :=
  let (name, cur) := cur.takeRun isWordChar
  if name.isEmpty || !endsAnchor cur.peek? then none else some (String.ofList name, cur)

/-! ## Tags -/

/-- Commas and square brackets belong to a tag only where it is written in full. -/
def isTagChar (isFull : Bool) (c : Char) : Bool :=
  isWordChar c || ";/?:@&=+$.!~*\x27()".contains c || (isFull && ",[]".contains c)

/-- How many octets follow the first octet of a character. -/
def octetsAfter? (octet : Nat) : Option Nat :=
  if octet < 0x80 then some 0
  else if octet / 0x20 = 6 then some 1
  else if octet / 0x10 = 14 then some 2
  else if octet / 0x08 = 30 then some 3
  else none

/-- The octets that a tag's characters stand for, and how many characters were read. `due` further
octets complete the character last begun. -/
def tagOctets (isFull : Bool) (due : Nat) : List Char → Option (List UInt8 × Nat)
  | '%' :: high :: low :: rest =>
    match hexValue? high, hexValue? low with
    | some high, some low =>
      let octet := high * 16 + low
      let due? :=
        if due = 0 then octetsAfter? octet else if octet / 0x40 = 2 then some (due - 1) else none
      match due? with
      | none => none
      | some due => (tagOctets isFull due rest).map fun (octets, count) => (octet.toUInt8 :: octets, count + 3)
    | _, _ => none
  | '%' :: _ => none
  | c :: rest =>
    if due ≠ 0 then none
    else if isTagChar isFull c then
      (tagOctets isFull 0 rest).map fun (octets, count) => (c.toNat.toUInt8 :: octets, count + 1)
    else some ([], 0)
  | [] => if due = 0 then some ([], 0) else none

/-- The tag characters at the cursor, which may be none. -/
def readTagTail (isFull : Bool) (cur : Cursor) : Option (Tag × Cursor) :=
  (tagOctets isFull 0 cur.rest).map fun (octets, count) => (.ofOctets octets, cur.skip count)

/-- The tag characters at the cursor, at least one. -/
def readTagText (isFull : Bool) (cur : Cursor) : Option (Tag × Cursor) := do
  let (tag, after) ← readTagTail isFull cur
  if after.column = cur.column then none else some (tag, after)

/-- A mark, a name and perhaps another mark. -/
def readHandle (cur : Cursor) : Option (String × Cursor) :=
  if cur.peek? != some '!' then none
  else
    let (name, after) := (cur.skip 1).takeRun isWordChar
    if after.peek? == some '!' then some ("!" ++ String.ofList name ++ "!", after.skip 1)
    else some ("!" ++ String.ofList name, after)

/-- A lone mark, or a name between two marks. -/
def isHandle (handle : String) : Bool := handle == "!" || (handle != "" && handle.endsWith "!")

/-- A tag as handle and suffix. One that does not begin with a whole handle has the handle `!`; the
tag `!` itself and a tag in full have none. -/
def readTagParts (cur : Cursor) : Option (String × Tag × Cursor) := do
  if cur.rest[1]? == some '<' then
    let (tag, cur) ← readTagText true (cur.skip 2)
    if cur.peek? == some '>' then some ("", tag, cur.skip 1) else none
  else
    let (handle, cur) ← readHandle cur
    if handle != "!" && isHandle handle then
      let (suffix, cur) ← readTagText false cur
      some (handle, suffix, cur)
    else
      let (tail, cur) ← readTagTail false cur
      let suffix := .ofText (String.ofList (handle.toList.drop 1)) ++ tail
      if suffix.isEmpty then some ("", .mark, cur) else some ("!", suffix, cur)

/-- A tag stands alone, but a comma may follow it inside a flow collection. -/
def readTag (inFlow : Bool) (cur : Cursor) : Option (Token × Cursor) := do
  let (handle, suffix, cur) ← readTagParts cur
  if separates cur.peek? || (inFlow && cur.peek? == some ',') then some (.tag handle suffix, cur) else none

/-! ## Directives -/

def maxVersionDigits : Nat := 9

def readVersionNumber (cur : Cursor) : Option (Nat × Cursor) :=
  let (digits, cur) := cur.takeRun isDigit
  if digits.isEmpty || maxVersionDigits < digits.length then none
  else some (digits.foldl (fun n c => n * 10 + (c.toNat - 48)) 0, cur)

def readVersion (cur : Cursor) : Option (Token × Cursor) := do
  let (major, cur) ← readVersionNumber cur.skipBlanks
  if cur.peek? != some '.' then none
  let (minor, cur) ← readVersionNumber (cur.skip 1)
  some (.version major minor, cur)

def readTagHandle (cur : Cursor) : Option (Token × Cursor) := do
  let (handle, cur) ← readHandle cur.skipBlanks
  if !isHandle handle || !cur.peek?.any isBlank then none
  let (expansion, cur) ← readTagText true cur.skipBlanks
  if separates cur.peek? then some (.tagHandle handle expansion, cur) else none

/-- A directive, after its mark, with its line. -/
def readDirective (cur : Cursor) : Option (Token × Cursor) := do
  let (name, cur) := cur.takeRun isWordChar
  if !separates cur.peek? then none
  let (token, cur) ←
    match String.ofList name with
    | "YAML" => readVersion cur
    | "TAG" => readTagHandle cur
    | _ => none
  let cur ← cur.finishLine?
  some (token, cur)

end Yaml

end BindingSchema
