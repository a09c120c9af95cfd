/-!
A place in a YAML text: the characters still to be read and the position reached.

A text is read with one character for every line break (`normalize`), so a cursor moves by
single characters. Lines and columns count from zero, columns in characters. How far a place is
from the start of its line is counted in octets, too.
-/

namespace BindingSchema

namespace Yaml

/-! ## Characters -/

def isBlank (c : Char) : Bool := c == ' ' || c == '\t'

/-- Line feed, line separator and paragraph separator. -/
def isBreak (c : Char) : Bool := c == '\n' || c == '\u2028' || c == '\u2029'

def isDigit (c : Char) : Bool := '0' ≤ c && c ≤ '9'

/-- The characters of anchors and of the names of directives and tag handles. -/
def isWordChar (c : Char) : Bool :=
  isDigit c || ('a' ≤ c && c ≤ 'z') || ('A' ≤ c && c ≤ 'Z') || c == '_' || c == '-'

def hexValue? (c : Char) : Option Nat :=
  if isDigit c then some (c.toNat - 48)
  else if 'a' ≤ c && c ≤ 'f' then some (c.toNat - 87)
  else if 'A' ≤ c && c ≤ 'F' then some (c.toNat - 55)
  else none

/-- Whether a word that ends before `c?` stands alone: blanks, breaks and the end of the text
separate. -/
def separates : Option Char → Bool
  | none => true
  | some c => isBlank c || isBreak c

/-- Ranges of the code points a text may hold, first and last. -/
def textRanges : List (Nat × Nat) :=
  [(0x09, 0x0a), (0x0d, 0x0d), (0x20, 0x7e), (0x85, 0x85), (0xa0, 0xd7ff), (0xe000, 0xfffd),
    (0x10000, 0x10ffff)]

def isTextChar (c : Char) : Bool := textRanges.any fun (first, last) => first ≤ c.toNat && c.toNat ≤ last

private def normalizeFrom (done : List Char) : List Char → List Char
  | [] => done.reverse
  | '\r' :: '\n' :: cs => normalizeFrom ('\n' :: done) cs
  | c :: cs => normalizeFrom ((if c == '\r' || c == '\u0085' then '\n' else c) :: done) cs

/-- Carriage returns, alone or before a line feed, and next-line characters become line feeds. -/
def normalize (cs : List Char) : List Char := normalizeFrom [] cs

/-! ## Cursors -/

structure Cursor where
  rest : List Char
  line : Nat
  column : Nat
  /-- Octets between the start of the line and this place. -/
  offset : Nat

namespace Cursor

def start (text : String) : Cursor := ⟨normalize text.toList, 0, 0, 0⟩

/-- Past the character `c`, with `rest` still to come. -/
def past (cur : Cursor) (c : Char) (rest : List Char) : Cursor :=
  if isBreak c then ⟨rest, cur.line + 1, 0, 0⟩
  else ⟨rest, cur.line, cur.column + 1, cur.offset + c.utf8Size⟩

def peek? (cur : Cursor) : Option Char := cur.rest.head?

/-- Past `count` characters of this line. -/
def skip (cur : Cursor) (count : Nat) : Cursor :=
  let offset := (cur.rest.take count).foldl (fun n c => n + c.utf8Size) cur.offset
  ⟨cur.rest.drop count, cur.line, cur.column + count, offset⟩

/-- The run of characters of this line that satisfy `p`, and the place after it. -/
def takeRun (cur : Cursor) (p : Char → Bool) : List Char × Cursor :=
  let run := cur.rest.takeWhile p
  (run, cur.skip run.length)

def skipBlanks (cur : Cursor) : Cursor := (cur.takeRun isBlank).2

/-- Past blanks, a comment and the line break: only these may follow on the line. -/
def finishLine? (cur : Cursor) : Option Cursor :=
  let cur := cur.skipBlanks
  let cur := if cur.peek? == some '#' then (cur.takeRun fun c => !isBreak c).2 else cur
  match cur.rest with
  | [] => some cur
  | c :: rest => if isBreak c then some (cur.past c rest) else none

/-- The marks between documents stand alone at the start of a line. -/
def isMark (cur : Cursor) (mark : Char) : Bool :=
  cur.column == 0 && cur.rest.take 3 == [mark, mark, mark] && separates cur.rest[3]?

def atDocumentMark (cur : Cursor) : Bool := cur.isMark '-' || cur.isMark '.'

end Cursor

end Yaml

end BindingSchema
