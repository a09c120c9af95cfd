import BindingSchema.Yaml.Grammar
import BindingSchema.Yaml.Scalar

/-!
From the node of a document to its value.

Aliases are replaced by what they mean. Keys are the texts of scalars, whatever their tags. With
aliases replaced, collections may still be nested to `maxNesting` only, and the number of
aliases met is bounded by the size of the document.
-/

namespace BindingSchema

namespace Yaml

namespace Node

/-- Aliases that may be replaced for every part of the document. -/
def maxAliasesPerPart : Nat := 100

/-- The anchored nodes of a document, and how many aliases may be met in it. -/
structure Anchors where
  nodes : List (Nat × Node)
  limit : Nat

/-- Of nodes with one number the last counts. -/
def Anchors.ofRoot (root : Node) : Anchors := ⟨root.anchored.reverse, root.size * maxAliasesPerPart⟩

/-- The node that `n` means; the state counts the aliases met. -/
def Anchors.resolve (anchors : Anchors) (n : Node) : StateT Nat Option Node := do
  match n with
  | .alias number =>
    modify (· + 1)
    if anchors.limit < (← get) then failure
    match anchors.nodes.lookup number with
    | some n => return n
    | none => failure
  | n => return n

def keyText (anchors : Anchors) (n : Node) : StateT Nat Option String := do
  match ← anchors.resolve n with
  | .scalar _ _ text => return text
  | _ => failure

/-- The value of a scalar. -/
def scalarValue? (p : Properties) (style : Style) (text : String) : Option Value :=
  if p.isForeign then none else Scalar.value? p.tag? style text

/-- The value of a node inside of which collections may still be nested to `room`. -/
def value (anchors : Anchors) : Nat → Node → StateT Nat Option Value
  | 0, n => do
    match ← anchors.resolve n with
    | .scalar p style text => scalarValue? p style text
    | _ => failure
  | room + 1, n => do
    match ← anchors.resolve n with
    | .scalar p style text => scalarValue? p style text
    | .sequence p items =>
      if p.isForeign then failure
      return .array (← items.mapM (value anchors room))
    | .mapping p entries =>
      if p.isForeign then failure
      let members ← entries.mapM fun (k, v) => do
        return (← keyText anchors k, ← value anchors room v)
      return .object (Keyed.ofList members)
    | .alias _ => failure

end Node

end Yaml

end BindingSchema
