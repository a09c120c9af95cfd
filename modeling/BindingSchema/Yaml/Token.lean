import BindingSchema.Yaml.Tag

/-!
The tokens of a YAML text.

Block structure, which the text shows by indentation, is explicit: a block collection has a
token at its start and one at its end, and every key that needs no mark of its own in the text
is marked.
-/

namespace BindingSchema

namespace Yaml

/-- How a scalar is written. -/
inductive Style where
  | plain
  | quoted
  | block
  deriving DecidableEq

inductive Token where
  | version (major : Nat) (minor : Nat)
  /-- Tags that begin with `handle` are short for ones that begin with `expansion`. -/
  | tagHandle (handle : String) (expansion : Tag)
  | documentStart
  | documentEnd
  | blockSequenceStart
  | blockMappingStart
  | blockEnd
  | flowSequenceStart
  | flowSequenceEnd
  | flowMappingStart
  | flowMappingEnd
  /-- The comma. -/
  | flowEntry
  /-- The dash. -/
  | blockEntry
  | key
  | value
  | anchor (name : String)
  | alias (name : String)
  /-- The handle is empty where the tag is written in full. -/
  | tag (handle : String) (suffix : Tag)
  | scalar (style : Style) (text : String)
  deriving DecidableEq

/-- How many collections may stand inside each other. -/
def maxNesting : Nat := 128

end Yaml

end BindingSchema
