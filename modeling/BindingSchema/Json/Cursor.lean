import BindingSchema.Json.Error

/-!
A place in a JSON text: the characters still to be read and the position reached.
-/

namespace BindingSchema

namespace Json

structure Cursor where
  rest : List Char
  line : Nat
  column : Nat

namespace Cursor

def start (text : String) : Cursor := ⟨text.toList, 1, 0⟩

/-- Past the character `c`, with `rest` still to come. -/
def past (cur : Cursor) (c : Char) (rest : List Char) : Cursor :=
  if c = '\n' then ⟨rest, cur.line + 1, 0⟩ else ⟨rest, cur.line, cur.column + c.utf8Size⟩

def peek? (cur : Cursor) : Option Char := cur.rest.head?

/-- Past the next character, if there is one. -/
def skip (cur : Cursor) : Cursor :=
  match cur.rest with
  | [] => cur
  | c :: rest => cur.past c rest

def isBlank (c : Char) : Bool := c == ' ' || c == '\n' || c == '\t' || c == '\r'

private def blanksFrom (cur : Cursor) : List Char → Cursor
  | [] => cur
  | c :: rest => if isBlank c then blanksFrom (cur.past c rest) rest else cur

def skipBlanks (cur : Cursor) : Cursor := blanksFrom cur cur.rest

/-- Past the whole text. -/
def finish (cur : Cursor) : Cursor :=
  cur.rest.foldl (fun cur c => cur.past c []) cur

private def bytesFrom (cur : Cursor) (count : Nat) : List Char → Option Cursor
  | [] => if count = 0 then some cur else none
  | c :: rest =>
    if count = 0 then some cur
    else if c.utf8Size ≤ count then bytesFrom (cur.past c rest) (count - c.utf8Size) rest
    else some { cur with column := cur.column + count }

/-- Past `count` bytes, which need not end with a character; `none` if the text is shorter. -/
def skipBytes (cur : Cursor) (count : Nat) : Option Cursor := bytesFrom cur count cur.rest

/-! ## Errors -/

/-- The reader stopped after what it has read. -/
def fail (cur : Cursor) (cause : Cause) : Error := ⟨cause, cur.line, cur.column⟩

/-- The reader stopped at the next byte. -/
def failNext (cur : Cursor) (cause : Cause) : Error :=
  match cur.rest with
  | [] => cur.fail cause
  | '\n' :: _ => ⟨cause, cur.line + 1, 0⟩
  | _ => ⟨cause, cur.line, cur.column + 1⟩

end Cursor

end Json

end BindingSchema
