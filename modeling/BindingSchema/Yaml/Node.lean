import BindingSchema.Yaml.Token

/-!
The content of a YAML document before anything is made of it: scalars, collections, and
aliases for anchored nodes.

Anchors are numbered. An alias holds the number its name had where the alias stands, and means
the last node that was given that number (`Node.anchored`).
-/

namespace BindingSchema

namespace Yaml

structure Properties where
  anchor? : Option Nat
  tag? : Option Tag

namespace Properties

def none : Properties := ⟨.none, .none⟩

def isForeign (p : Properties) : Bool := p.tag?.any (·.isForeign)

end Properties

inductive Node where
  | alias (anchor : Nat)
  | scalar (properties : Properties) (style : Style) (text : String)
  | sequence (properties : Properties) (items : List Node)
  /-- Keys and values, in order. -/
  | mapping (properties : Properties) (entries : List (Node × Node))

namespace Node

/-- What stands where the text has nothing. -/
def empty : Node := .scalar .none .plain ""

def anchor? : Node → Option Nat
  | .alias _ => none
  | .scalar p _ _ | .sequence p _ | .mapping p _ => p.anchor?

mutual

/-- Scalars and aliases count once, collections twice. -/
def size : Node → Nat
  | .alias _ => 1
  | .scalar _ _ _ => 1
  | .sequence _ items => itemsSize items + 2
  | .mapping _ entries => entriesSize entries + 2

def itemsSize : List Node → Nat
  | [] => 0
  | n :: ns => n.size + itemsSize ns

def entriesSize : List (Node × Node) → Nat
  | [] => 0
  | (k, v) :: es => k.size + v.size + entriesSize es

end

mutual

/-- Every node below `n` (and `n`) that has an anchor, under its number, outer nodes first. -/
def anchored (n : Node) : List (Nat × Node) :=
  let here := n.anchor?.toList.map (·, n)
  match n with
  | .alias _ | .scalar _ _ _ => here
  | .sequence _ items => here ++ itemsAnchored items
  | .mapping _ entries => here ++ entriesAnchored entries

def itemsAnchored : List Node → List (Nat × Node)
  | [] => []
  | n :: ns => n.anchored ++ itemsAnchored ns

def entriesAnchored : List (Node × Node) → List (Nat × Node)
  | [] => []
  | (k, v) :: es => k.anchored ++ (v.anchored ++ entriesAnchored es)

end

end Node

end Yaml

end BindingSchema
