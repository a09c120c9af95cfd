import BindingSchema.Keyed
import BindingSchema.Yaml.Node

/-!
From tokens to the node of a document.

A text holds one document at most. Where an entry has no node the empty one stands. A value
without a colon is empty, a list in flow style may hold single pairs, and a list in block style
may stand at the column of the key it belongs to; its dashes then have no tokens around them. Handles
of tags are expanded here, and anchors numbered: a name gets the number of names known so far,
each time it is given.

At most `maxNesting` collections stand inside each other. Every second call uses up a token, so
a multiple of their number bounds the recursion.
-/

namespace BindingSchema

namespace Yaml

/-- What is still to be read, and the names introduced so far. -/
structure Source where
  tokens : List Token
  anchors : Keyed Nat
  /-- Handles of tags and what they expand to. -/
  handles : Keyed Tag

abbrev Reading := StateT Source Option

namespace Reading

def peek? : Reading (Option Token) := return (← get).tokens.head?

/-- Past the next token. -/
def skip : Reading Unit := modify fun s => { s with tokens := s.tokens.tail }

def next? : Reading (Option Token) := do
  let t ← peek?
  skip
  return t

/-- Past the next token, which has to be `t`. -/
def expect (t : Token) : Reading Unit := do
  if (← next?) == some t then pure () else failure

/-- Past the next token if it is `t`. -/
def accept (t : Token) : Reading Bool := do
  if (← peek?) == some t then
    skip
    return true
  else return false

/-- Whether one of `ts` comes next. -/
def precedes (ts : List Token) : Reading Bool := return (← peek?).any ts.contains

/-! ## Properties -/

def defineAnchor (name : String) : Reading Nat := do
  let s ← get
  let number := s.anchors.length
  set { s with anchors := s.anchors.insert name number }
  return number

/-- A tag without a handle stands for itself. -/
def expandTag (handle : String) (suffix : Tag) : Reading Tag := do
  if handle == "" then return suffix
  match Keyed.get? (← get).handles handle with
  | some expansion => return expansion ++ suffix
  | none => failure

def anchorName? : Reading (Option String) := do
  match ← peek? with
  | some (.anchor name) =>
    skip
    return some name
  | _ => return none

def tagParts? : Reading (Option (String × Tag)) := do
  match ← peek? with
  | some (.tag handle suffix) =>
    skip
    return some (handle, suffix)
  | _ => return none

/-- An anchor and a tag, in either order. -/
def properties : Reading Properties := do
  let before ← anchorName?
  let tag? ← tagParts?
  let name? ← if before.isSome || tag?.isNone then pure before else anchorName?
  let tag? ← tag?.mapM fun (handle, suffix) => expandTag handle suffix
  let anchor? ← name?.mapM defineAnchor
  return ⟨anchor?, tag?⟩

/-! ## Nodes -/

/-- Where a node stands. -/
inductive Context where
  | flow
  | block
  /-- A key or value of a block mapping: dashes may follow without indentation. -/
  | blockEntry
  deriving DecidableEq

mutual

def node (room : Nat) (context : Context) : Nat → Reading Node
  | 0 => failure
  | fuel + 1 => do
    if let some (.alias name) ← peek? then
      skip
      match Keyed.get? (← get).anchors name with
      | some number => return .alias number
      | none => failure
    let p ← properties
    content room context p fuel
termination_by structural fuel => fuel

/-- A node after its properties. -/
def content (room : Nat) (context : Context) (p : Properties) : Nat → Reading Node
  | 0 => failure
  | fuel + 1 => do
    match ← peek? with
    | some (.scalar style text) =>
      skip
      return .scalar p style text
    | some .flowSequenceStart =>
      skip
      return .sequence p (← flowItems (← inside) true [] fuel)
    | some .flowMappingStart =>
      skip
      return .mapping p (← flowEntries (← inside) true [] fuel)
    | some .blockSequenceStart =>
      if context == .flow then missing
      else
        skip
        return .sequence p (← blockItems (← inside) [] fuel)
    | some .blockMappingStart =>
      if context == .flow then missing
      else
        skip
        return .mapping p (← blockEntries (← inside) [] fuel)
    | some .blockEntry =>
      if context == .blockEntry then return .sequence p (← plainItems (← inside) [] fuel) else missing
    | _ => missing
termination_by structural fuel => fuel
where
  /-- A node that has properties may lack content. -/
  missing : Reading Node := if p.anchor?.isSome || p.tag?.isSome then return .scalar p .plain "" else failure
  inside : Reading Nat := if room = 0 then failure else return room - 1

/-- The node of an entry, or the empty node before one of `ends`. -/
def nodeUnless (ends : List Token) (room : Nat) (context : Context) : Nat → Reading Node
  | 0 => failure
  | fuel + 1 => do
    if ← precedes ends then return .empty
    node room context fuel
termination_by structural fuel => fuel

/-- The items of a block sequence; `read` holds the earlier ones, reversed. -/
def blockItems (room : Nat) (read : List Node) : Nat → Reading (List Node)
  | 0 => failure
  | fuel + 1 => do
    match ← next? with
    | some .blockEntry =>
      let item ← nodeUnless [.blockEntry, .blockEnd] room .block fuel
      blockItems room (item :: read) fuel
    | some .blockEnd => return read.reverse
    | _ => failure
termination_by structural fuel => fuel

/-- The items of a block sequence that is not indented. -/
def plainItems (room : Nat) (read : List Node) : Nat → Reading (List Node)
  | 0 => failure
  | fuel + 1 => do
    if ← accept .blockEntry then
      let item ← nodeUnless [.blockEntry, .key, .value, .blockEnd] room .block fuel
      plainItems room (item :: read) fuel
    else return read.reverse
termination_by structural fuel => fuel

def blockEntries (room : Nat) (read : List (Node × Node)) : Nat → Reading (List (Node × Node))
  | 0 => failure
  | fuel + 1 => do
    match ← next? with
    | some .key =>
      let key ← nodeUnless [.key, .value, .blockEnd] room .blockEntry fuel
      let value ← if ← accept .value then nodeUnless [.key, .value, .blockEnd] room .blockEntry fuel else pure .empty
      blockEntries room ((key, value) :: read) fuel
    | some .blockEnd => return read.reverse
    | _ => failure
termination_by structural fuel => fuel

def flowItems (room : Nat) (first : Bool) (read : List Node) : Nat → Reading (List Node)
  | 0 => failure
  | fuel + 1 => do
    if ← accept .flowSequenceEnd then return read.reverse
    if !first then expect .flowEntry
    if ← accept .flowSequenceEnd then return read.reverse
    let item ← if ← accept .key then flowPair room fuel else node room .flow fuel
    flowItems room false (item :: read) fuel
termination_by structural fuel => fuel

/-- A pair in a flow sequence, after the mark of its key. The token that shows the key to be
missing is passed over. -/
def flowPair (room : Nat) : Nat → Reading Node
  | 0 => failure
  | fuel + 1 => do
    if room = 0 then failure
    let key ←
      if ← precedes [.value, .flowEntry, .flowSequenceEnd] then
        skip
        pure .empty
      else node (room - 1) .flow fuel
    let value ←
      if ← accept .value then nodeUnless [.flowEntry, .flowSequenceEnd] (room - 1) .flow fuel else pure .empty
    return .mapping .none [(key, value)]
termination_by structural fuel => fuel

def flowEntries (room : Nat) (first : Bool) (read : List (Node × Node)) : Nat → Reading (List (Node × Node))
  | 0 => failure
  | fuel + 1 => do
    if ← accept .flowMappingEnd then return read.reverse
    if !first then expect .flowEntry
    if ← accept .key then
      let key ← nodeUnless [.value, .flowEntry, .flowMappingEnd] room .flow fuel
      let value ←
        if ← accept .value then nodeUnless [.flowEntry, .flowMappingEnd] room .flow fuel else pure .empty
      flowEntries room false ((key, value) :: read) fuel
    else if ← accept .flowMappingEnd then return read.reverse
    else
      let key ← node room .flow fuel
      flowEntries room false ((key, .empty) :: read) fuel
termination_by structural fuel => fuel

end

/-! ## Documents -/

def isVersion : Token → Bool
  | .version 1 1 | .version 1 2 => true
  | _ => false

def defaultHandles : Keyed Tag := [("!", .mark), ("!!", .core)]

/-- Directives come once each: a version that is known, and handles. -/
def directives (versioned : Bool) (handles : Keyed Tag) : List Token → Option (Keyed Tag × List Token)
  | .version major minor :: ts =>
    if versioned || !isVersion (.version major minor) then none else directives true handles ts
  | .tagHandle handle expansion :: ts =>
    if (Keyed.get? handles handle).isSome then none
    else directives versioned (handles ++ [(handle, expansion)]) ts
  | ts => some (handles ++ defaultHandles, ts)

/-- Nothing but ends of documents may follow. -/
def atEnd : Reading Unit := do
  if (← get).tokens.all (· == .documentEnd) then pure () else failure

/-- The node of the document, if there is one. Directives call for a mark before it. -/
def document (fuel : Nat) : Reading (Option Node) := do
  let s ← get
  if s.tokens.isEmpty then return none
  match directives false [] s.tokens with
  | none => failure
  | some (handles, rest) =>
    let hasDirectives := rest.length < s.tokens.length
    set { s with tokens := rest, handles }
    let isMarked ← accept .documentStart
    if hasDirectives && !isMarked then failure
    let isEmpty := isMarked && (← get).tokens.head?.all isBoundary
    let root ← if isEmpty then pure Node.empty else node maxNesting .block fuel
    atEnd
    return some root
where
  /-- What may come before the next document. -/
  isBoundary : Token → Bool
    | .version _ _ | .tagHandle _ _ | .documentStart | .documentEnd => true
    | _ => false

end Reading

/-- The document of a text; `none` where the tokens are none. -/
def document? (tokens : List Token) : Option (Option Node) :=
  (Reading.document (3 * tokens.length + 3) |>.run ⟨tokens, [], []⟩).map (·.1)

end Yaml

end BindingSchema
