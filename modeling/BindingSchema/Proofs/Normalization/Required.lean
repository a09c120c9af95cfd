import BindingSchema.Proofs.Normalization.Written
import BindingSchema.Proofs.Structure.Regular

/-!
What is required in the normal form.

A node of the normal form has a flag for each of its properties, and the flags are set of those that its
definition requires (`Definition.Written.mem_requiredNames`). Whether everything that is required is a
property is checked in two places: lowering checks it of every schema (`Acceptable.required`), and the walk
of every description with properties that it comes to (`Checked.proper`). So what a schema requires is
flagged, and so is what a definition below one requires, or below an input or output, if it has properties
and no list leads to it (`required_of_parse`). For the other definitions below them the check is not made.
One without properties has nothing to flag, and what it requires is not looked at (`not_required_lamp`); one
that is written as a list, or below a list, is a description that the walk does not come to.
-/

namespace BindingSchema

open Structure

/-- The definition stands in the registry itself. -/
def IsSchema (root : Root) (ways : List Way) : Prop := (∃ index, root = .schema index) ∧ ways = []

/-- The names of the properties that the node marks as required. -/
def Node.requiredNames (x : Node) : List String := (x.properties.filter (·.required)).map (·.name)

theorem Node.mem_requiredNames {x : Node} {name : String} :
    name ∈ x.requiredNames ↔ (name, true) ∈ x.properties.map fun p => (p.name, p.required) := by
  simp only [requiredNames, List.mem_map, List.mem_filter, Prod.mk.injEq]
  exact ⟨fun ⟨p, ⟨hp, hrequired⟩, hname⟩ => ⟨p, hp, hname, hrequired⟩,
    fun ⟨p, hp, hname, hrequired⟩ => ⟨p, ⟨hp, hrequired⟩, hname⟩⟩

/-- The required properties are those that the definition requires. -/
theorem Definition.Written.mem_requiredNames {d : Definition} {x : Node} (h : d.Written x) {name : String} :
    name ∈ x.requiredNames ↔ name ∈ d.required ∧ name ∈ Keyed.keys d.properties := by
  rw [Node.mem_requiredNames, h.properties]
  simp only [List.mem_map, Prod.mk.injEq, Keyed.keys, List.contains_iff_mem]
  constructor
  · rintro ⟨e, he, rfl, hrequired⟩
    exact ⟨hrequired, e, he, rfl⟩
  · rintro ⟨hrequired, e, he, rfl⟩
    exact ⟨e, he, rfl, hrequired⟩

/-- Every definition that no list leads to is checked. -/
theorem Structure.checked_of_check {raw : Value} (hraw : raw.Unrepeated) (hcheck : check raw = [])
    {doc : FunctionDocument} (hread : FunctionDocument.read raw = .ok doc) {root : Root} {ways : List Way}
    {d : Definition} (hd : doc.definition? root ways = some d) (hlist : raw.meetsList (placeKeys root ways) = false) :
    Checked (schemaNames raw) d := by
  have hwalk := (List.append_eq_nil_iff.mp hcheck).2
  obtain ⟨r, hroot, hfollow⟩ := Option.bind_eq_some_iff.mp hd
  rcases FunctionDocument.read_root hraw hread (Value.not_meetsList_of_append hlist) hroot with
    rfl | ⟨w, source, hw, hdefinition⟩
  · exact Or.inl (eq_empty_of_follow? hfollow)
  · have hwalked : Walked (schemaNames raw) w r := ⟨hraw.follow? hw, walk_root hwalk hw, source, hdefinition⟩
    exact hwalked.checked_of_follow? (Value.meetsList_of_follow? hlist hw) hfollow

namespace Normalization

/-- What an accepted schema requires is among its properties. -/
theorem required_of_isSchema {doc : FunctionDocument} (h : Acceptable doc) {root : Root} {ways : List Way}
    {d : Definition} (hschema : IsSchema root ways) (hd : doc.definition? root ways = some d) :
    ∀ name ∈ d.required, name ∈ Keyed.keys d.properties := by
  obtain ⟨⟨index, rfl⟩, rfl⟩ := hschema
  obtain ⟨r, hr, hfollow⟩ := Option.bind_eq_some_iff.mp hd
  obtain ⟨e, he, rfl⟩ := Option.map_eq_some_iff.mp hr
  cases hfollow
  exact fun name hname => Keyed.isSome_get?.mp (h.required e (List.mem_of_getElem? he) name hname)

/-- In the normal form of an accepted document of version 1, a property is marked as required exactly if its
definition is among the properties of one that requires it. Nothing else is required by a schema, nor by
any other definition that has properties and that no list leads to. -/
theorem required_of_parse {raw : Value} {version : Version} {n : Normalized}
    (hversion : Document.statedVersion? raw = some version) (hone : version = .v1 ∨ version = .v1Draft)
    (hraw : raw.Unrepeated) (h : parse raw = .ok n) :
    ∃ doc, FunctionDocument.read raw = .ok doc ∧ ∀ root ways d, doc.definition? root ways = some d →
      ∃ x, n.interface.node? root ways = some x ∧
        (∀ name, name ∈ x.requiredNames ↔ name ∈ d.required ∧ name ∈ Keyed.keys d.properties) ∧
        (IsSchema root ways ∨ d.properties ≠ [] ∧ raw.meetsList (placeKeys root ways) = false →
          (∀ name ∈ d.required, name ∈ Keyed.keys d.properties) ∧
            ∀ name, name ∈ x.requiredNames ↔ name ∈ d.required) := by
  have hne : version ≠ .v0 := by rcases hone with rfl | rfl <;> decide
  obtain ⟨hcheck, doc, hread, herrors, rfl⟩ := (parse_eq_ok_iff hversion hne).mp h
  refine ⟨doc, hread, fun root ways d hd => ?_⟩
  obtain ⟨x, hx, hwritten⟩ : ∃ x, (derive doc).interface.node? root ways = some x ∧ d.Written x := by
    have hrel := written_derive doc root ways
    rw [hd] at hrel
    generalize (derive doc).interface.node? root ways = found at hrel
    cases hrel with
    | some h => exact ⟨_, rfl, h.1⟩
  refine ⟨x, hx, fun name => hwritten.mem_requiredNames, fun hchecked => ?_⟩
  have hdefined : ∀ name ∈ d.required, name ∈ Keyed.keys d.properties := by
    rcases hchecked with hschema | ⟨hproperties, hlist⟩
    · exact required_of_isSchema (errors_derive_eq_nil.mp herrors) hschema hd
    · exact fun name hname => Keyed.isSome_get?.mp
        ((checked_of_check hraw hcheck hread hd hlist).proper.required hproperties name hname)
  refine ⟨hdefined, fun name => hwritten.mem_requiredNames.trans ⟨fun h => h.1, fun h => ⟨h, hdefined name h⟩⟩⟩

/-- A clock shows the time, whose hours are required. -/
def clock : Value :=
  .object
    [("version", .string "v1"),
      ("exports", .object [("set", .object [("input", .object [("contentType", .string "application/json"),
        ("properties", .object [("hours", .object []), ("zone", .object [])]),
        ("required", .array [.string "hours"])])])])]

theorem required_of_parse_clock :
    Document.statedVersion? clock = some .v1 ∧ clock.Unrepeated ∧ ∃ n x, parse clock = .ok n ∧
      n.interface.node? (.parameter .exported 0 .input) [] = some x ∧
      clock.meetsList (placeKeys (.parameter .exported 0 .input) []) = false ∧
      ∀ name, name ∈ x.requiredNames ↔ name = "hours" := by
  have hversion : Document.statedVersion? clock = some .v1 := by decide +kernel
  have hraw : clock.Unrepeated := by
    simp [clock, Value.Unrepeated, Value.UnrepeatedMembers, Value.UnrepeatedItems, Keyed.keys]
  obtain ⟨n, hn⟩ : ∃ n, parse clock = .ok n := ⟨_, rfl⟩
  have hlist : clock.meetsList (placeKeys (.parameter .exported 0 .input) []) = false := rfl
  obtain ⟨doc, hdoc, hplaces⟩ := required_of_parse hversion (Or.inl rfl) hraw hn
  cases hdoc
  obtain ⟨x, hx, -, hrequired⟩ := hplaces (.parameter .exported 0 .input) [] _ rfl
  obtain ⟨-, hrequired⟩ := hrequired (Or.inr ⟨List.cons_ne_nil _ _, hlist⟩)
  exact ⟨hversion, hraw, n, x, hn, hx, hlist, fun name => (hrequired name).trans List.mem_singleton⟩

/-- A lamp has a bulb, and the bulb requires a socket but has no properties. -/
def lamp : Value :=
  .object [("version", .string "v1"), ("components", .object [("schemas", .object [("Lamp", .object
    [("properties", .object [("bulb", .object [("required", .array [.string "socket"])])])])])])]

/-- The lamp is accepted, and nothing in its normal form says that the socket is required. -/
theorem not_required_lamp :
    Document.statedVersion? lamp = some .v1 ∧ lamp.Unrepeated ∧ ∃ n doc d x, parse lamp = .ok n ∧
      FunctionDocument.read lamp = .ok doc ∧ doc.definition? (.schema 0) [.property 0] = some d ∧
      d.required = ["socket"] ∧ Keyed.keys d.properties = [] ∧
      n.interface.node? (.schema 0) [.property 0] = some x ∧ x.requiredNames = [] := by
  have hversion : Document.statedVersion? lamp = some .v1 := by decide +kernel
  have hraw : lamp.Unrepeated := by
    simp [lamp, Value.Unrepeated, Value.UnrepeatedMembers, Value.UnrepeatedItems, Keyed.keys]
  exact ⟨hversion, hraw, _, _, _, _, rfl, rfl, rfl, rfl, rfl, rfl, rfl⟩

end Normalization

end BindingSchema
