/-!
The tags of nodes.

A tag is given by octets: its escapes may spell octets that make up no characters. Core tags ask
for a kind of value. A tag that begins with a mark belongs to an application; one that can be
read means something only there, one that cannot be read means nothing.
-/

namespace BindingSchema

namespace Yaml

structure Tag where
  octets : List UInt8
  deriving DecidableEq

namespace Tag

/-- An octet of zero ends a tag. -/
def ofOctets (octets : List UInt8) : Tag := ⟨octets.takeWhile (· ≠ 0)⟩

def ofText (text : String) : Tag := ofOctets text.toUTF8.data.toList

instance : Append Tag := ⟨fun t u => ⟨t.octets ++ u.octets⟩⟩

def isEmpty (t : Tag) : Bool := t.octets.isEmpty

/-- The characters of a tag that has only whole ones. -/
def text? (t : Tag) : Option String := String.fromUTF8? t.octets.toByteArray

/-- What core tags begin with. -/
def core : Tag := ofText "tag:yaml.org,2002:"

/-- The mark on its own. -/
def mark : Tag := ofText "!"

def isMarked (t : Tag) : Bool := mark.octets.isPrefixOf t.octets

/-- Whether it means something, but not here. -/
def isForeign (t : Tag) : Bool := t.isMarked && t.text?.isSome

end Tag

end Yaml

end BindingSchema
