import BindingSchema.Yaml.Cursor

/-!
Scalars that run on with the text: quoted ones and plain ones.

Inside such a scalar a run of white space is a `Gap`. A gap within a line stands for itself. A gap
with line breaks is folded: blanks around the breaks vanish, a single line feed becomes a
space, and of several breaks all but a leading line feed stay. Blanks and breaks are gathered
until the next ink shows that the scalar goes on.
-/

namespace BindingSchema

namespace Yaml

inductive Gap where
  /-- Blanks within a line, the last one first. -/
  | blanks (text : List Char)
  /-- The first break, unless it is escaped, and the further ones, the last one first. -/
  | breaks (first : Option Char) (further : List Char)

namespace Gap

def none : Gap := .blanks []

def isNone : Gap → Bool
  | .blanks [] => true
  | _ => false

def hasBreak : Gap → Bool
  | .breaks _ _ => true
  | .blanks _ => false

/-- The gap with one more blank or break. -/
def add (g : Gap) (c : Char) : Gap :=
  match g with
  | .blanks text => if isBreak c then .breaks c [] else .blanks (c :: text)
  | .breaks first further => if isBreak c then .breaks first (c :: further) else g

/-- What the gap stands for, the last character first. -/
def folded : Gap → List Char
  | .blanks text => text
  | .breaks (some '\n') [] => [' ']
  | .breaks (some '\n') further => further
  | .breaks first further => further ++ first.toList

end Gap

def textOf (reversed : List Char) : String := String.ofList reversed.reverse

/-! ## Quoted scalars -/

/-- The rest of a scalar in single quotes, where a quote is written twice. `out` holds what came
before, the last character first. -/
def readSingle (out : List Char) (gap : Gap) (cur : Cursor) : List Char → Option (String × Cursor)
  | [] => none
  | c :: rest =>
    if isBlank c || isBreak c then readSingle out (gap.add c) (cur.past c rest) rest
    else if cur.atDocumentMark then none
    else
      let out := gap.folded ++ out
      if c == '\x27' then
        match rest with
        | '\x27' :: rest => readSingle ('\x27' :: out) .none (cur.skip 2) rest
        | rest => some (textOf out, cur.past c rest)
      else readSingle (c :: out) .none (cur.past c rest) rest

/-- The characters that a backslash and one character stand for. -/
def escapes : List (Char × Char) :=
  [('0', '\x00'), ('a', '\x07'), ('b', '\x08'), ('t', '\t'), ('\t', '\t'), ('n', '\n'), ('v', '\x0b'),
    ('f', '\x0c'), ('r', '\r'), ('e', '\x1b'), (' ', ' '), ('"', '"'), ('/', '/'), ('\\', '\\'),
    ('N', '\u0085'), ('_', '\u00a0'), ('L', '\u2028'), ('P', '\u2029')]

/-- Escapes by code point, and their numbers of hexadecimal digits. -/
def codeEscapes : List (Char × Nat) := [('x', 2), ('u', 4), ('U', 8)]

/-- Where a reader inside double quotes stands. -/
inductive Escape where
  | none
  /-- After a backslash. -/
  | opened
  /-- Inside a code point: digits to come and the value so far. -/
  | code (left : Nat) (value : Nat)

/-- The rest of a scalar in double quotes. -/
def readDouble (out : List Char) (gap : Gap) (escape : Escape) (cur : Cursor) :
    List Char → Option (String × Cursor)
  | [] => none
  | c :: rest =>
    let next := cur.past c rest
    match escape with
    | .code left value =>
      match hexValue? c with
      | none => none
      | some digit =>
        let value := value * 16 + digit
        if 1 < left then readDouble out gap (.code (left - 1) value) next rest
        else if value.isValidChar then readDouble (Char.ofNat value :: out) gap .none next rest
        else none
    | .opened =>
      if isBreak c then readDouble out (.breaks none []) .none next rest
      else
        match escapes.lookup c, codeEscapes.lookup c with
        | some d, _ => readDouble (d :: out) gap .none next rest
        | none, some digits => readDouble out gap (.code digits 0) next rest
        | none, none => none
    | .none =>
      if isBlank c || isBreak c then readDouble out (gap.add c) .none next rest
      else if cur.atDocumentMark then none
      else
        let out := gap.folded ++ out
        if c == '"' then some (textOf out, next)
        else if c == '\\' then readDouble out .none .opened next rest
        else readDouble (c :: out) .none .none next rest

/-! ## Plain scalars -/

/-- Brackets and commas end a plain scalar inside a flow collection. -/
def endsFlowText (c : Char) : Bool := c == ',' || c == '[' || c == ']' || c == '\x7b' || c == '\x7d'

/-- Where plain scalars end. -/
structure PlainLimits where
  inFlow : Bool
  /-- In block context, further lines begin at this column or to its right. -/
  margin : Nat

/-- Whether a plain scalar that has come to `c :: rest` ends here. -/
def PlainLimits.endsAt (limits : PlainLimits) (gap : Gap) (cur : Cursor) (c : Char) (rest : List Char) : Bool :=
  (!gap.isNone && ((!limits.inFlow && cur.column < limits.margin) || cur.atDocumentMark || c == '#')) ||
    (c == ':' && separates rest.head?) || (limits.inFlow && endsFlowText c)

/-- The rest of a plain scalar. The gap that comes back was read but does not belong to it. -/
def readPlain (limits : PlainLimits) (out : List Char) (gap : Gap) (cur : Cursor) :
    List Char → Option (String × Gap × Cursor)
  | [] => some (textOf out, gap, cur)
  | c :: rest =>
    if isBlank c || isBreak c then
      if c == '\t' && gap.hasBreak && cur.column < limits.margin then none
      else readPlain limits out (gap.add c) (cur.past c rest) rest
    else if limits.endsAt gap cur c rest then some (textOf out, gap, cur)
    else if limits.inFlow && c == ':' && rest.head?.any (fun d => d == '?' || endsFlowText d) then none
    else readPlain limits (c :: (gap.folded ++ out)) .none (cur.past c rest) rest

end Yaml

end BindingSchema
