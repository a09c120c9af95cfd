import BindingSchema.Yaml.Block
import BindingSchema.Yaml.Property

/-!
From text to tokens.

Two things are known only later than they are read. A block collection begins where a dash or
a key stands to the right of the open ones, and ends where a line begins to the left of it. And
whether something was a key shows at the colon after it, so the place of each possible key is kept:
one for the block context and one for every open flow collection. A key must lie on one line
and be short. In block context what begins at the column of the open collection has to be a key.
-/

namespace BindingSchema

namespace Yaml

/-- Something that is a key if a colon follows. -/
structure Candidate where
  /-- How many tokens stand before it. -/
  place : Nat
  start : Cursor
  isRequired : Bool

/-- The most octets between the start of a key and its colon. -/
def maxKeyLength : Nat := 1024

/-- Whether a colon at the cursor comes too late. -/
def Candidate.isStale (k : Candidate) (cur : Cursor) : Bool :=
  k.start.line < cur.line || k.start.offset + maxKeyLength < cur.offset

/-- The tokens so far, and what bears on those to come. -/
structure Layout where
  cur : Cursor
  tokens : Array Token
  /-- Columns of the open block collections, the innermost one first. -/
  blocks : List Nat
  candidate? : Option Candidate
  /-- Candidates of the contexts around this one. Outside every flow collection there are none. -/
  outer : List (Option Candidate)
  /-- Whether a key without a mark may begin here. -/
  mayBegin : Bool

namespace Layout

def start (text : String) : Layout := ⟨.start text, #[], [], none, [], true⟩

def inFlow (s : Layout) : Bool := !s.outer.isEmpty

/-- The first column to the right of the innermost block collection. -/
def margin (s : Layout) : Nat :=
  match s.blocks with
  | [] => 0
  | column :: _ => column + 1

def push (s : Layout) (t : Token) : Layout := { s with tokens := s.tokens.push t }

/-- With a token of `width` characters. -/
def take (s : Layout) (width : Nat) (t : Token) : Layout := { s with cur := s.cur.skip width }.push t

/-! ## Keys -/

/-- No key begins at the place that was kept. -/
def dropCandidate (s : Layout) : Option Layout :=
  match s.candidate? with
  | some k => if k.isRequired then none else some { s with candidate? := none }
  | none => some s

/-- A place that is stale is given up, and must not have been a required one. -/
def fresh? (cur : Cursor) : Option Candidate → Option (Option Candidate)
  | none => some none
  | some k => if k.isStale cur then if k.isRequired then none else some none else some (some k)

def dropStale (s : Layout) : Option Layout := do
  let candidate? ← fresh? s.cur s.candidate?
  let outer ← s.outer.mapM (fresh? s.cur)
  return { s with candidate?, outer }

/-- What is read next may be a key. -/
def keepCandidate (s : Layout) : Option Layout :=
  if s.mayBegin then do
    let s ← s.dropCandidate
    let isRequired := !s.inFlow && s.blocks.head? == some s.cur.column
    return { s with candidate? := some ⟨s.tokens.size, s.cur, isRequired⟩ }
  else some s

/-! ## Blocks -/

/-- A block collection opens at `column`, unless one is open there. Its token goes to `place`. -/
def openBlock (s : Layout) (column : Nat) (place : Nat) (t : Token) : Layout :=
  if s.inFlow || s.blocks.head?.any (column ≤ ·) then s
  else { s with blocks := column :: s.blocks, tokens := s.tokens.insertIdxIfInBounds place t }

private def closeWhile (p : Nat → Bool) : List Nat → Array Token → List Nat × Array Token
  | [], tokens => ([], tokens)
  | column :: blocks, tokens =>
    if p column then closeWhile p blocks (tokens.push .blockEnd) else (column :: blocks, tokens)

/-- The block collections that satisfy `p` end here, from the innermost one on. -/
def closeBlocks (s : Layout) (p : Nat → Bool) : Layout :=
  if s.inFlow then s
  else
    let (blocks, tokens) := closeWhile p s.blocks s.tokens
    { s with blocks, tokens }

def closeAllBlocks (s : Layout) : Layout := s.closeBlocks fun _ => true

/-! ## Between tokens -/

private def spaceFrom (s : Layout) (inComment : Bool) : List Char → Layout
  | [] => s
  | c :: rest =>
    let next := { s with cur := s.cur.past c rest }
    if isBreak c then spaceFrom { next with mayBegin := s.mayBegin || !s.inFlow } false rest
    else if inComment || c == '#' then spaceFrom next true rest
    else if c == '\ufeff' && s.cur.column == 0 then spaceFrom next false rest
    else if c == ' ' || (c == '\t' && (s.inFlow || !s.mayBegin)) then spaceFrom next false rest
    else s

/-- Past white space and comments. Outside flow collections a key may begin on a new line, and
tabs do not indent it. A byte order mark may begin a line and then takes up a column. -/
def skipSpace (s : Layout) : Layout := spaceFrom s false s.cur.rest

/-! ## Tokens -/

/-- A directive or a mark between documents ends every block. -/
def betweenDocuments (s : Layout) : Option Layout := do
  let s ← s.closeAllBlocks.dropCandidate
  return { s with mayBegin := false }

def directive (s : Layout) : Option Layout := do
  let s ← s.betweenDocuments
  let (t, cur) ← readDirective (s.cur.skip 1)
  return { s with cur }.push t

/-- A bracket. Flow collections nested too deeply are refused at once. -/
def flowStart (s : Layout) (t : Token) : Option Layout := do
  if maxNesting ≤ s.outer.length then none
  let s ← s.keepCandidate
  return { s with outer := s.candidate? :: s.outer, candidate? := none, mayBegin := true }.take 1 t

def flowEnd (s : Layout) (t : Token) : Option Layout := do
  let s ← s.dropCandidate
  let s := match s.outer with
    | [] => s
    | candidate? :: outer => { s with candidate?, outer }
  return { s with mayBegin := false }.take 1 t

def flowEntry (s : Layout) : Option Layout := do
  let s ← s.dropCandidate
  return { s with mayBegin := true }.take 1 .flowEntry

def blockEntry (s : Layout) : Option Layout := do
  if !s.inFlow && !s.mayBegin then none
  let s ← (s.openBlock s.cur.column s.tokens.size .blockSequenceStart).dropCandidate
  return { s with mayBegin := true }.take 1 .blockEntry

/-- A question mark. -/
def markedKey (s : Layout) : Option Layout := do
  if !s.inFlow && !s.mayBegin then none
  let s ← (s.openBlock s.cur.column s.tokens.size .blockMappingStart).dropCandidate
  return { s with mayBegin := !s.inFlow }.take 1 .key

/-- A colon: what was kept is a key after all. -/
def value (s : Layout) : Option Layout :=
  match s.candidate? with
  | some k =>
    let s := { s with tokens := s.tokens.insertIdxIfInBounds k.place .key, candidate? := none, mayBegin := false }
    some ((s.openBlock k.start.column k.place .blockMappingStart).take 1 .value)
  | none =>
    if !s.inFlow && !s.mayBegin then none
    else
      let s := s.openBlock s.cur.column s.tokens.size .blockMappingStart
      some ({ s with mayBegin := !s.inFlow }.take 1 .value)

/-- An anchor, alias or tag, which may be the first part of a key. -/
def property (s : Layout) (read : Cursor → Option (Token × Cursor)) : Option Layout := do
  let s ← s.keepCandidate
  let (t, cur) ← read s.cur
  return { s with cur, mayBegin := false }.push t

def anchor (s : Layout) (named : String → Token) : Option Layout :=
  s.property fun cur => (readAnchor (cur.skip 1)).map fun (name, cur) => (named name, cur)

def block (s : Layout) (isFolded : Bool) : Option Layout := do
  let s ← s.dropCandidate
  let (text, cur) ← readBlock isFolded s.margin (s.cur.skip 1)
  return { s with cur, mayBegin := true }.push (.scalar .block text)

def quoted (s : Layout) (read : Cursor → List Char → Option (String × Cursor)) : Option Layout := do
  let s ← s.keepCandidate
  let begun := s.cur.skip 1
  let (text, cur) ← read begun begun.rest
  return { s with cur, mayBegin := false }.push (.scalar .quoted text)

def plain (s : Layout) : Option Layout := do
  let s ← s.keepCandidate
  let (text, gap, cur) ← readPlain ⟨s.inFlow, s.margin⟩ [] .none s.cur s.cur.rest
  return { s with cur, mayBegin := gap.hasBreak }.push (.scalar .plain text)

/-- Characters that begin no plain scalar. -/
def indicators : List Char :=
  ['-', '?', ':', ',', '[', ']', '\x7b', '\x7d', '#', '&', '*', '!', '|', '>', '\x27', '"', '%', '@', '\x60']

/-- Indicators may begin a plain scalar if no blank follows: a dash everywhere, a question mark
or colon in block context. -/
def mayBeginPlain (s : Layout) (c : Char) (next? : Option Char) : Bool :=
  (!isBlank c && !isBreak c && !indicators.contains c) ||
    (c == '-' && !next?.any isBlank) ||
    (!s.inFlow && (c == '?' || c == ':') && !separates next?)

/-- The token that begins with `c`; `next?` comes after. -/
def token (s : Layout) (c : Char) (next? : Option Char) : Option Layout :=
  let standsAlone := separates next?
  if s.cur.column == 0 && c == '%' then s.directive
  else if s.cur.isMark '-' then s.betweenDocuments.map (·.take 3 .documentStart)
  else if s.cur.isMark '.' then s.betweenDocuments.map (·.take 3 .documentEnd)
  else match c with
    | '[' => s.flowStart .flowSequenceStart
    | '\x7b' => s.flowStart .flowMappingStart
    | ']' => s.flowEnd .flowSequenceEnd
    | '\x7d' => s.flowEnd .flowMappingEnd
    | ',' => s.flowEntry
    | '*' => s.anchor .alias
    | '&' => s.anchor .anchor
    | '!' => s.property (readTag s.inFlow)
    | '\x27' => s.quoted (readSingle [] .none)
    | '"' => s.quoted (readDouble [] .none .none)
    | _ =>
      if c == '-' && standsAlone then s.blockEntry
      else if c == '?' && (s.inFlow || standsAlone) then s.markedKey
      else if c == ':' && (s.inFlow || standsAlone) then s.value
      else if c == '|' && !s.inFlow then s.block false
      else if c == '>' && !s.inFlow then s.block true
      else if s.mayBeginPlain c next? then s.plain
      else none

/-- At the end of the text no required key is missing. -/
def finish (s : Layout) : Option (Array Token) := s.closeAllBlocks.dropCandidate.map (·.tokens)

/-- Every token takes up a character, so the length of the text bounds their number. -/
def run : Nat → Layout → Option (Array Token)
  | 0, _ => none
  | fuel + 1, s => do
    let s ← s.skipSpace.dropStale
    let s := s.closeBlocks (s.cur.column < ·)
    match s.cur.rest with
    | [] => s.finish
    | c :: rest => (← s.token c rest.head?).run fuel

end Layout

/-- The tokens of a text, unless it is none. -/
def tokens? (text : String) : Option (List Token) :=
  let s := Layout.start text
  (s.run (s.cur.rest.length + 1)).map (·.toList)

end Yaml

end BindingSchema
