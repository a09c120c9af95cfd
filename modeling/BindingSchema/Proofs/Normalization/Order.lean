import BindingSchema.Proofs.Annotation.Renumbering
import BindingSchema.Proofs.Document.Order
import BindingSchema.Proofs.Normalization.Acceptance

/-!
The order in which schemas are declared does not matter.

Annotation meets the schemas in another order if they are declared in another order, but what comes
of it depends on the order only through the places of the schemas in the registry. A document is
accepted in one order if it is in any other (`Acceptable.of_reordered`), and its normal forms are the
same but for these numbers (`renumbered_derive`).
-/

namespace BindingSchema

open Annotation

/-- The same interface with its schemas in another order. `f` takes the place of each schema to the place
where the schema of its name stands in the other order, and the targets of all references with it. -/
structure Interface.Renumbered (f : Nat → Nat) (i i' : Interface) : Prop where
  version : i'.version = i.version
  places : ∀ place : Nat, (Keyed.keys i'.schemas)[f place]? = (Keyed.keys i.schemas)[place]?
  schemas : ∀ name, Keyed.get? i'.schemas name = (Keyed.get? i.schemas name).map (·.renumber f)
  exports : i'.exports = i.exports.map (·.renumber f)
  imports : i'.imports = i.imports.map (·.renumber f)

/-- Where annotation starts, in the other order. -/
def Root.renumber (f : Nat → Nat) : Root → Root
  | .schema index => .schema (f index)
  | .parameter side index slot => .parameter side index slot

namespace Normalization

variable {doc doc' : FunctionDocument}

theorem functions_reordered (h : doc.Reordered doc') (side : Side) :
    (lowered doc').functions side = (lowered doc).functions side := by
  cases side with
  | exported => exact congrArg lowerFunctions h.exports
  | imported => exact congrArg lowerFunctions h.imports

theorem schemas_perm (h : doc.Reordered doc') : (lowered doc).schemas.Perm (lowered doc').schemas :=
  h.schemas.map _

theorem declarations_perm (h : doc.Reordered doc') : (declarations doc).Perm (declarations doc') := by
  have hexports : (lowered doc').exports = (lowered doc).exports := functions_reordered h .exported
  have himports : (lowered doc').imports = (lowered doc).imports := functions_reordered h .imported
  rw [declarations, declarations, Declaration.all, Declaration.all, hexports, himports]
  exact ((schemas_perm h).flatMap_right _).append_left _

/-- The warnings come in another order. -/
theorem warnings_perm (h : doc.Reordered doc') :
    (derive doc).diagnostics.warnings.Perm (derive doc').diagnostics.warnings := by
  show (Declaration.check (declarations doc)).warnings.Perm (Declaration.check (declarations doc')).warnings
  rw [Declaration.check_eq, Declaration.check_eq]
  exact (declarations_perm h).filterMap _

section

variable {f : Nat → Nat} (h : doc.Reordered doc')
  (hf : Rearranges f (lowered doc).schemas (lowered doc').schemas)

include h hf

theorem root?_renumber (root : Root) : (lowered doc').root? (root.renumber f) = (lowered doc).root? root := by
  cases root with
  | schema index => rw [Root.renumber, Interface.root?, hf.entry, Interface.root?]
  | parameter side index slot => rw [Root.renumber, Interface.root?, functions_reordered h, Interface.root?]

/-- A document is accepted if it is in another order. -/
theorem Acceptable.of_reordered (hdoc' : Acceptable doc') : Acceptable doc where
  required e he := hdoc'.required e (h.schemas.mem_iff.mp he)
  names d hd := hdoc'.names d ((declarations_perm h).mem_iff.mp hd)
  sites root ways t ht := by
    refine hf.renumbers.plain (hdoc'.sites (root.renumber f) ways t ?_)
    rw [Interface.site?, root?_renumber h hf]
    exact ht
  acyclic := hf.acyclic hdoc'.acyclic

end

section

variable {f : Nat → Nat} (hf : Rearranges f (lowered doc).schemas (lowered doc').schemas)
  (herrors : (derive doc).diagnostics.errors = []) (herrors' : (derive doc').diagnostics.errors = [])

include hf herrors herrors'

/-- What is annotated in one order is what is annotated in the other, but for the numbers. -/
theorem typed_root {root : Root} {s : Site} (hs : (lowered doc).root? root = some s) :
    typed (Keyed.keys (lowered doc').schemas) (last doc').types s.name s.isMember s.node =
      (typed (Keyed.keys (lowered doc).schemas) (last doc).types s.name s.isMember s.node).renumber f := by
  obtain ⟨hbare, hsupported⟩ := supported_root herrors hs
  refine hf.renumbers.typed (fun i hi => ?_) s.node s.name s.isMember hbare hsupported
  exact hf.types_eq (sound_last herrors) (sound_last herrors') (length_keys _ ▸ hi)

theorem functions_renumber (h : doc.Reordered doc') (side : Side) :
    (derive doc').interface.functions side = ((derive doc).interface.functions side).map (·.renumber f) := by
  rw [(functions_derive herrors' side).1, (functions_derive herrors side).1, functions_reordered h, List.map_map]
  refine List.map_congr_left fun g hg => ?_
  obtain ⟨index, hindex⟩ := List.mem_iff_getElem?.mp hg
  have hparameter : ∀ slot p, g.parameter? slot = some p →
      typedParameter (Keyed.keys (lowered doc').schemas) (last doc').types g.name p =
        (typedParameter (Keyed.keys (lowered doc).schemas) (last doc).types g.name p).renumber f := by
    intro slot p hp
    have hroot : (lowered doc).root? (.parameter side index slot) = some ⟨g.name, false, p.node⟩ := by
      simp [Interface.root?, hindex, hp]
    exact congrArg (Parameter.mk p.contentType) (typed_root hf herrors herrors' hroot)
  have hslot : ∀ slot,
      (g.parameter? slot).map (typedParameter (Keyed.keys (lowered doc').schemas) (last doc').types g.name) =
        ((g.parameter? slot).map (typedParameter (Keyed.keys (lowered doc).schemas) (last doc).types g.name)).map
          (·.renumber f) := by
    intro slot
    rw [Option.map_map]
    exact Option.map_congr (hparameter slot)
  exact congrArg₂ (fun input output => { g with input, output }) (hslot .input) (hslot .output)

theorem get?_schemas_renumber (name : String) :
    Keyed.get? (derive doc').interface.schemas name =
      (Keyed.get? (derive doc).interface.schemas name).map (·.renumber f) := by
  rw [get?_derive herrors', get?_derive herrors, hf.get?_eq, Option.map_map]
  refine Option.map_congr fun schema hschema => ?_
  obtain ⟨i, _, hi⟩ := Keyed.get?_eq_some_iff.mp hschema
  have hroot : (lowered doc).root? (.schema i) = some ⟨name, false, schema.node⟩ := by
    rw [Interface.root?, hi]
    rfl
  exact congrArg (Schema.mk schema.name schema.required) (typed_root hf herrors herrors' hroot)

theorem renumbered_derive (h : doc.Reordered doc') :
    (derive doc).interface.Renumbered f (derive doc').interface where
  version := by rw [interface_derive, interface_derive]
  places i := by
    rw [keys_derive herrors', keys_derive herrors, getElem?_keys, getElem?_keys, hf.entry]
  schemas := get?_schemas_renumber hf herrors herrors'
  exports := functions_renumber hf herrors herrors' h .exported
  imports := functions_renumber hf herrors herrors' h .imported

end

/-! ## Parsing in another order -/

theorem exists_rearranges_of_read {raw raw' : Value} (hraw : raw.Unrepeated) (h : raw.Reordered raw')
    (hread : FunctionDocument.read raw = .ok doc) (hdoc : doc.Reordered doc') :
    ∃ f, Rearranges f (lowered doc).schemas (lowered doc').schemas := by
  refine exists_rearranges (schemas_perm hdoc) ?_
  rw [lowered, keys_lowerSchemas]
  exact FunctionDocument.nodup_keys_schemas h hraw hread

theorem exists_parse_of_reordered {raw raw' : Value} {version : Version}
    (hversion : Document.statedVersion? raw = some version) (hne : version ≠ .v0) (hraw : raw.Unrepeated)
    (h : raw.Reordered raw') {n : Normalized} (hn : parse raw = .ok n) : ∃ n', parse raw' = .ok n' := by
  obtain ⟨hcheck, doc, hread, herrors, _⟩ := (parse_eq_ok_iff hversion hne).mp hn
  obtain ⟨doc', hread', hdoc⟩ := FunctionDocument.read_reordered h hread
  obtain ⟨f, hf⟩ := exists_rearranges_of_read (h.unrepeated hraw) h.symm hread' hdoc.symm
  have herrors' := errors_derive_eq_nil.mpr ((errors_derive_eq_nil.mp herrors).of_reordered hdoc.symm hf)
  exact ⟨_, (parse_eq_ok_iff (h.statedVersion?_eq.trans hversion) hne).mpr
    ⟨h.check_eq_nil hraw hcheck, doc', hread', herrors', rfl⟩⟩

/-- Either both documents are accepted or neither is. If they are, their normal forms are the same but
for the order of the schemas and their numbers, and the same is warned of, in some order. -/
theorem parse_reordered {raw raw' : Value} {version : Version}
    (hversion : Document.statedVersion? raw = some version) (hne : version ≠ .v0) (hraw : raw.Unrepeated)
    (h : raw.Reordered raw') :
    ((∃ n, parse raw = .ok n) ↔ ∃ n', parse raw' = .ok n') ∧
      ∀ n n', parse raw = .ok n → parse raw' = .ok n' →
        (∃ f, n.interface.Renumbered f n'.interface) ∧ n.warnings.Perm n'.warnings := by
  have hversion' := h.statedVersion?_eq.trans hversion
  refine ⟨⟨?_, ?_⟩, ?_⟩
  · rintro ⟨n, hn⟩
    exact exists_parse_of_reordered hversion hne hraw h hn
  · rintro ⟨n', hn'⟩
    exact exists_parse_of_reordered hversion' hne (h.unrepeated hraw) h.symm hn'
  · intro n n' hn hn'
    obtain ⟨_, doc, hread, herrors, rfl⟩ := (parse_eq_ok_iff hversion hne).mp hn
    obtain ⟨_, doc', hread', herrors', rfl⟩ := (parse_eq_ok_iff hversion' hne).mp hn'
    obtain ⟨_, hread'', hdoc⟩ := FunctionDocument.read_reordered h hread
    cases hread'.symm.trans hread''
    obtain ⟨f, hf⟩ := exists_rearranges_of_read hraw h hread hdoc
    refine ⟨⟨f, renumbered_derive hf herrors herrors' hdoc⟩, ?_⟩
    rw [warnings_readDocument hversion, warnings_readDocument hversion']
    exact (warnings_perm hdoc).append_left _

/-- A document with the given schemas and a function that gives out a cart. -/
def shop (schemas : List (String × Value)) : Value :=
  .object [("version", .string "v1"),
    ("exports", .object [("checkout", .object [("output", .object [
      ("contentType", .string "application/json"), ("$ref", .string "#/components/schemas/Cart")])])]),
    ("components", .object [("schemas", .object schemas)])]

def cart : String × Value :=
  ("Cart", .object [("properties", .object [
    ("class", .object [("$ref", .string "#/components/schemas/Class")])])])

def fare : String × Value := ("Class", .object [("enum", .array [.string "first", .string "second"])])

/-- A class is declared before the cart or after it: the two change places, and the warning stays. -/
theorem parse_reordered_shop :
    ∃ n n' f, parse (shop [cart, fare]) = .ok n ∧ parse (shop [fare, cart]) = .ok n' ∧
      n.interface.Renumbered f n'.interface ∧ f 0 = 1 ∧ f 1 = 0 ∧
      n.warnings.Perm n'.warnings ∧ n.warnings ≠ [] := by
  have hversion : Document.statedVersion? (shop [cart, fare]) = some .v1 := rfl
  have hraw : (shop [cart, fare]).Unrepeated := by
    simp [shop, cart, fare, Value.Unrepeated, Value.UnrepeatedMembers, Value.UnrepeatedItems, Keyed.keys]
  have hreordered : (shop [cart, fare]).Reordered (shop [fare, cart]) :=
    ⟨[_, _], [], _, _, ⟨[], [], _, _, ⟨_, _, .swap fare cart [], rfl, rfl⟩, rfl, rfl⟩, rfl, rfl⟩
  obtain ⟨haccepted, hsame⟩ := parse_reordered hversion (by decide) hraw hreordered
  obtain ⟨n, hn, hkeys, hne⟩ : ∃ n, parse (shop [cart, fare]) = .ok n ∧
      Keyed.keys n.interface.schemas = ["Cart", "Class"] ∧ n.warnings ≠ [] := ⟨_, rfl, rfl, List.cons_ne_nil _ _⟩
  obtain ⟨n', hn'⟩ := haccepted.mp ⟨n, hn⟩
  have hkeys' : Keyed.keys n'.interface.schemas = ["Class", "Cart"] := by
    cases hn'
    rfl
  obtain ⟨⟨f, hf⟩, hwarnings⟩ := hsame n n' hn hn'
  have hplaces : ∀ i : Nat, ["Class", "Cart"][f i]? = ["Cart", "Class"][i]? := hkeys ▸ hkeys' ▸ hf.places
  refine ⟨n, n', f, hn, hn', hf, ?_, ?_, hwarnings, hne⟩
  · have hplace := hplaces 0
    rcases hcart : f 0 with _ | _ | place <;> simp [hcart] at hplace ⊢
  · have hplace := hplaces 1
    rcases hclass : f 1 with _ | _ | place <;> simp [hclass] at hplace ⊢

end Normalization

end BindingSchema
