import BindingSchema.Proofs.Annotation.Reach
import BindingSchema.Proofs.Normalization.Acceptance
import BindingSchema.Proofs.Normalization.Types

/-!
Which references of a normal form are resolved, and which members have a type.

Annotation takes the type of a node from the first thing that it has to take it from, and leaves the
rest alone. So a reference beside properties stays a path, and so does all that stands below items
or map values that are not the first (`reached_derive`). A normal form in which every reference is
resolved and every member typed is one whose nodes have one such thing each
(`Reached.complete_iff`); a document may be accepted that has others (`not_complete_doubled`).
-/

namespace BindingSchema

open Annotation

/-- The node has nothing that types come from but what its own type comes from. -/
structure Node.Single (n : Node) : Prop where
  reference : ∀ r, n.reference = some r → n.branch = .reference r
  items : ∀ item, n.items = some item → n.branch = .items item
  mapValues : ∀ value, n.additionalProperties = some value → n.branch = .mapValues value

namespace Interface

/-- The references that are resolved are those that the type of a reached node comes from, and the
members that have a type are the reached ones. -/
structure Reached (i : Interface) : Prop where
  isResolved : ∀ root ways x, i.node? root ways = some x → ∀ r, x.reference = some r →
    (r.isResolved = true ↔ (i.site? root ways).isSome = true ∧ x.branch = .reference r)
  hasType : ∀ root ways x, i.node? root ways = some x → ways ≠ [] →
    (x.bindingType.isSome = true ↔ (i.site? root ways).isSome = true)

/-- Every reference is resolved and every member has a type. -/
structure Complete (i : Interface) : Prop where
  isResolved : ∀ root ways x, i.node? root ways = some x → ∀ r, x.reference = some r → r.isResolved = true
  hasType : ∀ root ways x, i.node? root ways = some x → ways ≠ [] → x.bindingType.isSome = true

/-- If every node has just one thing that types come from, annotation reaches every node. -/
theorem isSome_site? {i : Interface} (h : ∀ root ways x, i.node? root ways = some x → x.Single) {root : Root}
    {ways : List Way} : ∀ {x : Node}, i.node? root ways = some x → (i.site? root ways).isSome = true := by
  induction ways using List.reverseRecOn with
  | nil =>
    intro x hx
    obtain ⟨s, hs, _⟩ := Option.bind_eq_some_iff.mp hx
    simp [site?, hs, Site.follow?]
  | append_singleton ways way ih =>
    intro x hx
    rw [node?_concat] at hx
    obtain ⟨y, hy, hbelow⟩ := Option.bind_eq_some_iff.mp hx
    obtain ⟨s, hs⟩ := Option.isSome_iff_exists.mp (ih hy)
    obtain rfl : s.node = y := Option.some.inj ((node?_of_site? hs).symm.trans hy)
    have hsingle := h root ways s.node hy
    obtain ⟨t, ht, _⟩ := Site.exists_below? hbelow hsingle.items hsingle.mapValues
    simp [site?_concat, hs, ht]

/-- Where only what is reached gets anything, a normal form is complete if nodes are single. -/
theorem Reached.complete_iff {i : Interface} (h : i.Reached) :
    i.Complete ↔ ∀ root ways x, i.node? root ways = some x → x.Single := by
  constructor
  · intro hcomplete root ways x hx
    have hsite : ∃ s, i.site? root ways = some s ∧ s.node = x := by
      have hsome : (i.site? root ways).isSome = true := by
        cases ways with
        | nil =>
          obtain ⟨s, hs, _⟩ := Option.bind_eq_some_iff.mp hx
          simp [site?, hs, Site.follow?]
        | cons way ways =>
          have hne := List.cons_ne_nil way ways
          exact (h.hasType root _ x hx hne).mp (hcomplete.hasType root _ x hx hne)
      obtain ⟨s, hs⟩ := Option.isSome_iff_exists.mp hsome
      exact ⟨s, hs, Option.some.inj ((node?_of_site? hs).symm.trans hx)⟩
    obtain ⟨s, hs, rfl⟩ := hsite
    -- a member has a type, so it is reached, and by the branch of the node
    have hreached : ∀ way m, s.node.below? way = some m → ∃ t, s.below? way = some t := by
      intro way m hm
      have hnode : i.node? root (ways ++ [way]) = some m := by rw [node?_concat, hx, Option.bind_some, hm]
      have hne : ways ++ [way] ≠ [] := by simp
      have hsome := (h.hasType root _ m hnode hne).mp (hcomplete.hasType root _ m hnode hne)
      rw [site?_concat, hs, Option.bind_some] at hsome
      exact Option.isSome_iff_exists.mp hsome
    refine ⟨fun r hr => ((h.isResolved root ways s.node hx r hr).mp
      (hcomplete.isResolved root ways s.node hx r hr)).2, fun item hi => ?_, fun value hv => ?_⟩
    · obtain ⟨t, ht⟩ := hreached .items item hi
      exact Site.branch_of_below?_items ht hi
    · obtain ⟨t, ht⟩ := hreached .mapValues value hv
      exact Site.branch_of_below?_mapValues ht hv
  · intro hsingle
    have hsite : ∀ root ways x, i.node? root ways = some x → (i.site? root ways).isSome = true :=
      fun root ways x hx => isSome_site? hsingle hx
    exact ⟨fun root ways x hx r hr => (h.isResolved root ways x hx r hr).mpr
        ⟨hsite root ways x hx, (hsingle root ways x hx).reference r hr⟩,
      fun root ways x hx hne => (h.hasType root ways x hx hne).mpr (hsite root ways x hx)⟩

end Interface

namespace Normalization

open Interface

variable {doc : FunctionDocument}

/-- A node of the normal form was annotated at a site of the document, or no site is there and
nothing was derived for it. -/
theorem node?_derive (h : (derive doc).diagnostics.errors = []) {root : Root} {ways : List Way} {x : Node}
    (hx : (derive doc).interface.node? root ways = some x) :
    (∃ raw, (lowered doc).site? root ways = some raw ∧ raw.node.Bare ∧
        Supported (Keyed.keys (lowered doc).schemas) (MeansType (lowered doc).schemas (last doc).types) raw.node ∧
        x = (typedSite (Keyed.keys (lowered doc).schemas) (last doc).types raw).node) ∨
      ((lowered doc).site? root ways = none ∧ x.Bare) := by
  obtain ⟨s, hs, hx⟩ := Option.bind_eq_some_iff.mp hx
  rw [root?_derive h] at hs
  obtain ⟨raw, hraw, rfl⟩ := Option.map_eq_some_iff.mp hs
  obtain ⟨hbare, hsupported⟩ := supported_root h hraw
  rw [site?, hraw, Option.bind_some]
  rcases follow?_typed hbare hx with ⟨t, ht, hbelow, rfl⟩ | hnone
  · exact Or.inl ⟨t, ht, hbelow, hsupported.follow ht, rfl⟩
  · exact Or.inr hnone

theorem isSome_site?_derive (h : (derive doc).diagnostics.errors = []) (root : Root) (ways : List Way) :
    ((derive doc).interface.site? root ways).isSome = ((lowered doc).site? root ways).isSome := by
  rw [site?_derive h, Option.isSome_map]

theorem reached_derive (h : (derive doc).diagnostics.errors = []) : (derive doc).interface.Reached := by
  constructor
  · intro root ways x hx r hr
    rw [isSome_site?_derive h]
    rcases node?_derive h hx with ⟨raw, hraw, hbare, hsupported, rfl⟩ | ⟨hnone, hbare⟩
    · rw [hraw]
      exact (isResolved_typed_iff hbare hsupported hr).trans ⟨fun hb => ⟨rfl, hb⟩, And.right⟩
    · obtain ⟨_, htarget⟩ := (Node.bare_iff.mp hbare).1
      simp [hnone, SchemaRef.isResolved, htarget r hr]
  · intro root ways x hx hne
    rw [isSome_site?_derive h]
    rcases node?_derive h hx with ⟨raw, hraw, hbare, hsupported, rfl⟩ | ⟨hnone, hbare⟩
    · have hmeans := means_site h hraw
      obtain ⟨s, _, hfollow⟩ := Option.bind_eq_some_iff.mp hraw
      rw [Site.isMember_of_follow? hne hfollow] at hmeans
      obtain ⟨u, hu⟩ := hmeans.member
      rw [hraw, hu]
      rfl
    · simp [hnone, (Node.bare_iff.mp hbare).1.1]

/-- A resolved reference leads to the schema that its path names. -/
theorem resolve_derive (h : (derive doc).diagnostics.errors = []) {root : Root} {ways : List Way} {x : Node}
    (hx : (derive doc).interface.node? root ways = some x) {r : SchemaRef} (hr : x.reference = some r)
    (hresolved : r.isResolved = true) :
    ∃ name schema, SchemaRef.parse r.path = .ok name ∧ (derive doc).interface.resolve r = .ok schema ∧
      schema.name = name ∧ Keyed.get? (derive doc).interface.schemas name = some schema := by
  obtain ⟨target, htarget⟩ := Option.isSome_iff_exists.mp hresolved
  rcases node?_derive h hx with ⟨raw, _, hbare, _, rfl⟩ | ⟨_, hbare⟩
  · obtain ⟨name, hparse, hidx⟩ := resolve_eq_ok.mp (resolve_of_typed hbare hr htarget)
    obtain ⟨schema, hs⟩ := Keyed.exists_of_idxOf? hidx
    have hderived := getElem?_schemas_derive h hs
    refine ⟨name, _, hparse, ?_, ?_, Keyed.get?_eq_some_iff.mpr ⟨target, ?_, hderived⟩⟩
    · simp only [Interface.resolve, htarget, Option.bind_some, schema?, hderived, Option.map_some]
    · obtain ⟨⟨_, d⟩, _, heq⟩ := List.mem_map.mp (List.mem_of_getElem? hs)
      cases heq
      rfl
    · rw [schemas_derive h]
      simpa [Keyed.keys, Function.comp_def] using hidx
  · rw [(Node.bare_iff.mp hbare).1.2 r hr] at htarget
    cases htarget

/-- Names by themselves have no nodes. -/
theorem node?_ofNames (doc : NameDocument) (root : Root) (ways : List Way) :
    (ofNames doc).interface.node? root ways = none := by
  cases root with
  | schema index => rfl
  | parameter side index slot =>
    rw [node?, Option.bind_eq_none_iff]
    intro s hs
    obtain ⟨f, hf, hs⟩ := Option.bind_eq_some_iff.mp hs
    have hslot : f.parameter? slot = none := by
      cases side with
      | exported =>
        obtain ⟨name, _, rfl⟩ := List.mem_map.mp (List.mem_of_getElem? hf)
        cases slot <;> rfl
      | imported => cases hf
    rw [hslot] at hs
    cases hs

end Normalization

/-- What is accepted is derived from a document of functions, or has names only. -/
theorem interface_of_parse {raw : Value} {n : Normalized} (h : parse raw = .ok n) :
    (∃ doc, n.interface = (Normalization.ofNames doc).interface) ∨
      ∃ doc, (Normalization.derive doc).diagnostics.errors = [] ∧
        n.interface = (Normalization.derive doc).interface := by
  obtain ⟨document, warnings, m, _, hm, rfl⟩ := parse_eq_ok.mp h
  cases document with
  | names doc =>
    cases hm
    exact .inl ⟨doc, rfl⟩
  | functions doc =>
    obtain ⟨herrors, hinterface⟩ := Normalization.normalize_eq_ok doc hm
    exact .inr ⟨doc, herrors, hinterface⟩

/-- What is accepted comes without a type only where annotation does not go. The references that
are resolved are those that the type of a node comes from where it goes, and each leads to the
schema that its path names; the members that have a type are those where it goes. So every reference
is resolved and every member typed exactly if no node has two things that its type could come
from. -/
theorem reached_of_parse {raw : Value} {n : Normalized} (h : parse raw = .ok n) :
    n.interface.Reached ∧
      (∀ root ways x, n.interface.node? root ways = some x → ∀ r, x.reference = some r → r.isResolved = true →
        ∃ name schema, SchemaRef.parse r.path = .ok name ∧ n.interface.resolve r = .ok schema ∧
          schema.name = name ∧ Keyed.get? n.interface.schemas name = some schema) ∧
      (n.interface.Complete ↔ ∀ root ways x, n.interface.node? root ways = some x → x.Single) := by
  suffices hparts : n.interface.Reached ∧
      (∀ root ways x, n.interface.node? root ways = some x → ∀ r, x.reference = some r → r.isResolved = true →
        ∃ name schema, SchemaRef.parse r.path = .ok name ∧ n.interface.resolve r = .ok schema ∧
          schema.name = name ∧ Keyed.get? n.interface.schemas name = some schema) from
    ⟨hparts.1, hparts.2, hparts.1.complete_iff⟩
  obtain ⟨doc, hinterface⟩ | ⟨doc, herrors, hinterface⟩ := interface_of_parse h
  · rw [hinterface]
    refine ⟨⟨?_, ?_⟩, ?_⟩ <;> intro root ways x hx <;> rw [Normalization.node?_ofNames] at hx <;> cases hx
  · rw [hinterface]
    exact ⟨Normalization.reached_derive herrors, fun root ways x hx r hr hresolved =>
      Normalization.resolve_derive herrors hx hr hresolved⟩

/-- A shelf has books of one kind, and says also what it has items of. -/
def shelf : Value :=
  .object [("version", .string "v1"), ("components", .object [("schemas", .object [
    ("Shelf", .object [
      ("properties", .object [("kind", .object [("$ref", .string "#/components/schemas/Kind")])]),
      ("items", .object [("type", .string "string")])]),
    ("Kind", .object [("enum", .array [.string "novel", .string "atlas"])])])])]

/-- The reference below the properties leads to its schema; the items are left without a type. -/
theorem reached_of_parse_shelf :
    ∃ n, parse shelf = .ok n ∧
      (∃ x r schema, n.interface.node? (.schema 0) [.property 0] = some x ∧ x.reference = some r ∧
        n.interface.resolve r = .ok schema ∧ schema.name = "Kind") ∧
      ∃ x, n.interface.node? (.schema 0) [.items] = some x ∧ ¬ x.bindingType.isSome = true := by
  obtain ⟨n, hn⟩ : ∃ n, parse shelf = .ok n := ⟨_, rfl⟩
  have hn' := hn
  cases hn'
  obtain ⟨hreached, hresolve, _⟩ := reached_of_parse hn
  refine ⟨_, hn, ?_, ?_⟩
  · obtain ⟨name, schema, hparse, hschema, rfl, _⟩ := hresolve (.schema 0) [.property 0] _ rfl _ rfl rfl
    refine ⟨_, _, schema, rfl, rfl, hschema, ?_⟩
    exact (Except.ok.inj hparse).symm
  · refine ⟨_, rfl, fun htyped => ?_⟩
    have := (hreached.hasType (.schema 0) [.items] _ rfl (List.cons_ne_nil _ _)).mp htyped
    cases this

/-- A schema with properties that is also a reference. -/
def doubled : Value :=
  .object [("version", .string "v1"), ("components", .object [("schemas", .object [
    ("A", .object [
      ("properties", .object [("x", .object [("type", .string "string")])]),
      ("$ref", .string "#/components/schemas/B")]),
    ("B", .object [("type", .string "integer")])])])]

/-- It is accepted, and its reference is left unresolved. -/
theorem not_complete_doubled :
    ∃ n x r, parse doubled = .ok n ∧ n.interface.node? (.schema 0) [] = some x ∧ x.reference = some r ∧
      r.isResolved = false ∧ n.interface.resolve r = .error (.unresolved "#/components/schemas/B") ∧
      ¬ n.interface.Complete := by
  obtain ⟨n, hn⟩ : ∃ n, parse doubled = .ok n := ⟨_, rfl⟩
  cases hn
  refine ⟨_, _, _, rfl, rfl, rfl, rfl, rfl, fun hcomplete => ?_⟩
  have := hcomplete.isResolved (.schema 0) [] _ rfl _ rfl
  cases this

end BindingSchema
