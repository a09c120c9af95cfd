import BindingSchema.Yaml.Flow

/-!
Block scalars: indented lines after `|` or `>`.

The lines of the scalar are those indented to one column, which the header gives or the first
line of ink shows. After `|` line breaks stay as they are. After `>` a line feed between two lines
that begin with ink becomes a space, or vanishes if empty lines follow it. The header also says
what becomes of the breaks at the end.
-/

namespace BindingSchema

namespace Yaml

inductive Chomping where
  /-- No break at the end. -/
  | strip
  /-- The break of the last line. -/
  | clip
  /-- That break and the empty lines. -/
  | keep

structure BlockHeader where
  isFolded : Bool
  chomping : Chomping
  /-- Columns beyond the enclosing block. -/
  indentation : Option Nat

namespace BlockHeader

def chomping? : Char → Option Chomping
  | '+' => some .keep
  | '-' => some .strip
  | _ => none

/-- An indentation of zero is refused. -/
def indentation? (c : Char) : Option Nat :=
  if isDigit c && c != '0' then some (c.toNat - 48) else none

/-- The two indicators, each of which may be missing, in either order. -/
def readIndicators (cur : Cursor) : Option (Chomping × Option Nat × Cursor) :=
  let first := cur.peek?
  let second := cur.rest[1]?
  match first.bind chomping?, first with
  | some chomping, _ =>
    if second.any isDigit then
      (second.bind indentation?).map fun n => (chomping, some n, cur.skip 2)
    else some (chomping, none, cur.skip 1)
  | none, first =>
    if first.any isDigit then
      (first.bind indentation?).map fun n =>
        match second.bind chomping? with
        | some chomping => (chomping, some n, cur.skip 2)
        | none => (.clip, some n, cur.skip 1)
    else some (.clip, none, cur)

/-- The rest of the header's line. -/
def read (isFolded : Bool) (cur : Cursor) : Option (BlockHeader × Cursor) := do
  let (chomping, indentation, cur) ← readIndicators cur
  let cur ← cur.finishLine?
  return (⟨isFolded, chomping, indentation⟩, cur)

end BlockHeader

/-- How far a block scalar has been read. Texts stand with their last character first. -/
structure BlockText where
  out : List Char
  /-- The break of the line before. -/
  break? : Option Char
  /-- The breaks of empty lines since. -/
  empties : List Char
  /-- The line before began with a blank. -/
  isIndented : Bool
  /-- The column of the scalar, once it is known. -/
  column? : Option Nat
  /-- The rightmost column that the lines before the first ink came to. -/
  reached : Nat
  /-- Reading stands inside a line, not at its indentation. -/
  inLine : Bool

namespace BlockText

/-- The next line begins, with `c`. -/
def beginLine (s : BlockText) (isFolded : Bool) (c : Char) : BlockText :=
  let joined :=
    if isFolded && s.break? == some '\n' && !s.isIndented && !isBlank c then
      if s.empties.isEmpty then ' ' :: s.out else s.out
    else s.break?.toList ++ s.out
  { s with
    out := c :: (s.empties ++ joined), break? := none, empties := [], isIndented := isBlank c, inLine := true }

def finish (s : BlockText) (chomping : Chomping) : String :=
  match chomping with
  | .strip => textOf s.out
  | .clip => textOf (s.break?.toList ++ s.out)
  | .keep => textOf (s.empties ++ (s.break?.toList ++ s.out))

end BlockText

/-- The lines of a block scalar. `margin` is the first column to the right of the enclosing
block. -/
def readLines (header : BlockHeader) (margin : Nat) (s : BlockText) (cur : Cursor) :
    List Char → Option (String × Cursor)
  | [] => some (s.finish header.chomping, cur)
  | c :: rest =>
    let next := cur.past c rest
    if s.inLine then
      if isBreak c then readLines header margin { s with break? := c, inLine := false } next rest
      else readLines header margin { s with out := c :: s.out } next rest
    else
      let isBefore := s.column?.all fun column => cur.column < column
      let reached := max s.reached cur.column
      if isBefore && c == ' ' then readLines header margin s next rest
      else if isBefore && c == '\t' then none
      else if isBreak c then readLines header margin { s with empties := c :: s.empties, reached } next rest
      else
        let column := s.column?.getD (max reached (max margin 1))
        if cur.column == column then
          readLines header margin ({ s with column? := column }.beginLine header.isFolded c) next rest
        else some (s.finish header.chomping, cur)

/-- A block scalar, after its `|` or `>`. -/
def readBlock (isFolded : Bool) (margin : Nat) (cur : Cursor) : Option (String × Cursor) := do
  let (header, cur) ← BlockHeader.read isFolded cur
  let column? := header.indentation.map fun n => margin - 1 + n
  readLines header margin ⟨[], none, [], false, column?, 0, false⟩ cur cur.rest

end Yaml

end BindingSchema
