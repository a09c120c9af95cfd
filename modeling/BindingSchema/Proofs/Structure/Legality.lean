import BindingSchema.Proofs.Document.Places
import BindingSchema.Proofs.Document.Words
import BindingSchema.Proofs.Structure.Grammar

/-!
What the structure of a document promises of its definitions.

A definition is legal if its type may be declared, its format is one of its type's, and it has not
both properties and map values. The description of an object is checked for just that
(`legal_of_check`), and the walk comes to the value of every definition it can reach through objects
(`walk_below`, `walk_root`). Reading however also takes a list for a definition, a function or the
components, and the walk enters no list. So in a document in which nothing is found wrong every
definition is legal that no list leads to, and the others are as they were written
(`legal_of_readDocument`, `readDocument_of_list`).
-/

namespace BindingSchema

open Decode

/-- What a document may say of a value. -/
structure Definition.Legal (d : Definition) : Prop where
  type : ∀ t, d.type = some t → t ∈ TypeName.declarable
  format : ∀ f, d.format = some f → ∃ t, d.type = some t ∧ f ∈ t.formats
  properties : ¬ (d.properties ≠ [] ∧ d.additionalProperties.isSome = true)

theorem Definition.legal_empty : Definition.Legal {} :=
  ⟨fun _ h => (by cases h), fun _ h => (by cases h), fun h => h.1 rfl⟩

/-! ## Fields that are there -/

theorem present?_eq_some {members : List (String × Value)} {key : String} {v : Value}
    (hget : Keyed.get? members key = some v) (hv : v ≠ .null) : Value.present? members key = some v := by
  unfold Value.present?
  rw [hget]
  cases v with
  | null => exact absurd rfl hv
  | _ => rfl

theorem get?_of_present? {members : List (String × Value)} {key : String} {v : Value}
    (h : Value.present? members key = some v) : Keyed.get? members key = some v ∧ v ≠ .null := by
  unfold Value.present? at h
  split at h
  · cases h
  · cases h
  · rename_i hne hget
    cases h
    exact ⟨hget, hne⟩

/-! ## One description -/

namespace Structure

section

variable {source : Source} {members : List (String × Value)} {d : Definition}
  (hfields : Definition.Fields source members d)

include hfields

/-- A type that the check can read is the type of the definition. -/
theorem type_of_typeOf {t : TypeName} (h : typeOf members = some t) : d.type = some t := by
  unfold typeOf at h
  obtain ⟨s, hs, hword⟩ := Option.bind_eq_some_iff.mp h
  obtain ⟨v, hv, hstring⟩ := Option.bind_eq_some_iff.mp hs
  obtain ⟨hget, _⟩ := get?_of_present? hv
  cases v with
  | string s' =>
    cases hstring
    have htype := hfields.type
    unfold Given at htype
    rw [hget] at htype
    obtain ⟨a, ha, hsome⟩ := map_eq_ok.mp htype
    have hlookup := (TypeName.get?_words s).symm.trans (lookupWord_eq_ok.mp ha)
    rw [← hsome, ← hlookup]
    exact hword
  | _ => cases hstring

theorem typeOf_of_checkType {place : Pointer} (hcheck : checkType members place = []) {t : TypeName}
    (ht : d.type = some t) : t ∈ TypeName.declarable := by
  have hsome : d.type ≠ none := by rw [ht]; exact Option.some_ne_none t
  obtain ⟨v, hv, hread⟩ := hfields.type.some hsome
  rw [ht] at hread
  obtain ⟨hne, _⟩ := optional_eq_some hread
  unfold checkType at hcheck
  rw [present?_eq_some hv hne] at hcheck
  by_cases hany : (typeOf members).any (·.isDeclarable) = true
  · obtain ⟨t', ht', hdeclarable⟩ := (Option.any_eq_true _ _).mp hany
    have := type_of_typeOf hfields ht'
    rw [ht] at this
    cases this
    exact List.contains_iff_mem.mp hdeclarable
  · simp only [if_neg hany] at hcheck
    cases hcheck

theorem format_of_checkFormat {place : Pointer} (hcheck : checkFormat members place = []) {f : Format}
    (hf : d.format = some f) : ∃ t, d.type = some t ∧ f ∈ t.formats := by
  have hsome : d.format ≠ none := by rw [hf]; exact Option.some_ne_none f
  obtain ⟨v, hv, hread⟩ := hfields.format.some hsome
  rw [hf] at hread
  obtain ⟨hne, hword⟩ := optional_eq_some hread
  unfold checkFormat at hcheck
  rw [present?_eq_some hv hne] at hcheck
  rcases ht : typeOf members with _ | t
  · -- nothing is a format of a missing type
    rcases hfound : v.asString?.bind Format.ofText? with _ | f' <;> simp [ht, hfound] at hcheck
  · refine ⟨t, type_of_typeOf hfields ht, ?_⟩
    rw [ht] at hcheck
    rcases word_eq_ok hword with hnone | ⟨s, rfl, hget⟩
    · simp [hnone] at hcheck
    · have hlookup : Format.ofText? s = some f := (Format.get?_words s).symm.trans hget
      by_cases hmem : f ∈ t.formats
      · exact hmem
      · simp [Value.asString?, hlookup, hmem] at hcheck

theorem properties_of_checkProperties {place : Pointer} (hcheck : checkProperties members place = []) :
    ¬ (d.properties ≠ [] ∧ d.additionalProperties.isSome = true) := by
  rintro ⟨hne, hsome⟩
  obtain ⟨x, hx⟩ := Option.isSome_iff_exists.mp hsome
  obtain ⟨v, hv, hnamed⟩ := hfields.properties.some hne
  obtain ⟨w, hw, hvalues⟩ := hfields.additionalProperties.some (by rw [hx]; exact Option.some_ne_none x)
  -- there are map values
  have hdeclares : declaresMapValues members = true := by
    unfold declaresMapValues
    rw [hx] at hvalues
    cases w with
    | null => cases hvalues
    | bool b =>
      cases b with
      | false => cases hvalues
      | true => rw [present?_eq_some hw (by simp)]
    | _ => rw [present?_eq_some hw (by simp)]
  -- and there are properties
  obtain ⟨⟨name, p⟩, hp⟩ := List.exists_mem_of_ne_nil _ hne
  obtain ⟨index, hindex⟩ := List.mem_iff_getElem?.mp hp
  obtain ⟨entries, u, rfl, hu, _⟩ := entry_of_named hnamed hindex
  unfold checkProperties at hcheck
  rw [present?_eq_some hv (by simp)] at hcheck
  cases entries with
  | nil => cases hu
  | cons e rest =>
    simp only [hdeclares, if_true, List.cons_append, List.nil_append] at hcheck
    cases hcheck

end

/-- A definition whose description is in order is legal. -/
theorem legal_of_check {schemas : List String} {source : Source} {members : List (String × Value)} {d : Definition}
    {place : Pointer} (hnodup : (Keyed.keys members).Nodup)
    (hread : Definition.read source (.object members) = .ok d)
    (hcheck : checkDescription schemas members place = []) : d.Legal := by
  have hfields := Definition.fields_of_read hnodup hread
  unfold checkDescription at hcheck
  simp only [List.append_eq_nil_iff] at hcheck
  obtain ⟨⟨⟨⟨⟨htype, hformat⟩, hproperties⟩, _⟩, _⟩, _⟩ := hcheck
  exact ⟨fun t ht => typeOf_of_checkType hfields htype ht, fun f hf => format_of_checkFormat hfields hformat hf,
    properties_of_checkProperties hfields hproperties⟩

/-! ## The walk -/

theorem walk_object {schemas : List String} {place : Pointer} {described : Bool} {members : List (String × Value)} :
    walk schemas place described (.object members) = [] ↔
      (described = true → checkDescription schemas members place = []) ∧
        ∀ m ∈ members, walk schemas (place.push m.1) (!isUserKeyed place m.1 described) m.2 = [] := by
  rw [walk, List.append_eq_nil_iff, walkMembers_eq_flatMap, List.flatMap_eq_nil_iff]
  cases described <;> simp

/-- What the walk comes to through a member of the name `name`. -/
theorem walk_field {schemas : List String} {place : Pointer} {described : Bool} {v w : Value} {name : String}
    (h : walk schemas place described v = []) (hw : v.member? (.field name) = some w) :
    walk schemas (place.push name) (!isUserKeyed place name described) w = [] := by
  cases v with
  | object members => exact (walk_object.mp h).2 _ (Keyed.mem_of_get? hw)
  | _ => cases hw

theorem walk_entry {schemas : List String} {place : Pointer} {described : Bool} {v w : Value} {index : Nat}
    (h : walk schemas place described v = []) (hw : v.member? (.entry index) = some w) :
    ∃ name, walk schemas (place.push name) (!isUserKeyed place name described) w = [] := by
  cases v with
  | object members =>
    obtain ⟨⟨name, u⟩, hm, rfl⟩ := Option.map_eq_some_iff.mp hw
    exact ⟨name, (walk_object.mp h).2 _ (List.mem_of_getElem? hm)⟩
  | _ => cases hw

/-- Far enough from the root the author chooses names only among properties. -/
def Deep (place : Pointer) : Prop := 2 ≤ place.segments.length

theorem Deep.push {place : Pointer} (h : Deep place) (name : String) : Deep (place.push name) := by
  unfold Deep Pointer.push at *
  simp only [List.length_append]
  omega

theorem isUserKeyed_of_deep {place : Pointer} (h : Deep place) (key : String) (described : Bool) :
    isUserKeyed place key described = (described && key == "properties") := by
  unfold Deep at h
  refine isUserKeyed_of_ne (fun hroot => ?_) (fun hcomponents => ?_) key described
  · simp [hroot] at h
  · simp [hcomponents] at h

/-- The walk comes from a description to the descriptions below it. -/
theorem walk_below {schemas : List String} {place : Pointer} {v w : Value} {way : Way} (hplace : Deep place)
    (h : walk schemas place true v = []) (hw : v.follow? way.keys = some w) :
    ∃ place', Deep place' ∧ walk schemas place' true w = [] := by
  cases way with
  | property index =>
    obtain ⟨u, hu, hw⟩ := Option.bind_eq_some_iff.mp hw
    obtain ⟨_, hw, hnil⟩ := Option.bind_eq_some_iff.mp hw
    cases hnil
    have hproperties := walk_field h hu
    rw [isUserKeyed_of_deep hplace] at hproperties
    obtain ⟨name, hentry⟩ := walk_entry hproperties hw
    rw [isUserKeyed_of_deep (hplace.push _)] at hentry
    exact ⟨_, (hplace.push _).push name, hentry⟩
  | items =>
    obtain ⟨_, hu, hnil⟩ := Option.bind_eq_some_iff.mp hw
    cases hnil
    have hitems := walk_field h hu
    rw [isUserKeyed_of_deep hplace] at hitems
    exact ⟨_, hplace.push _, hitems⟩
  | mapValues =>
    obtain ⟨_, hu, hnil⟩ := Option.bind_eq_some_iff.mp hw
    cases hnil
    have hvalues := walk_field h hu
    rw [isUserKeyed_of_deep hplace] at hvalues
    exact ⟨_, hplace.push _, hvalues⟩

/-- The walk over a document comes to the descriptions where definitions begin. -/
theorem walk_root {schemas : List String} {raw w : Value} {root : Root} (h : walk schemas .root true raw = [])
    (hw : raw.follow? root.keys = some w) : ∃ place, Deep place ∧ walk schemas place true w = [] := by
  cases root with
  | schema index =>
    obtain ⟨components, hcomponents, hw⟩ := Option.bind_eq_some_iff.mp hw
    obtain ⟨entries, hentries, hw⟩ := Option.bind_eq_some_iff.mp hw
    obtain ⟨_, hw, hnil⟩ := Option.bind_eq_some_iff.mp hw
    cases hnil
    have hcomponents := walk_field h hcomponents
    have hentries := walk_field hcomponents hentries
    obtain ⟨name, hentry⟩ := walk_entry hentries hw
    exact ⟨_, by simp [Deep, Pointer.push, Pointer.root], hentry⟩
  | parameter side index slot =>
    obtain ⟨entries, hentries, hw⟩ := Option.bind_eq_some_iff.mp hw
    obtain ⟨entry, hentry, hw⟩ := Option.bind_eq_some_iff.mp hw
    obtain ⟨_, hw, hnil⟩ := Option.bind_eq_some_iff.mp hw
    cases hnil
    have hentries := walk_field h hentries
    obtain ⟨name, hfunction⟩ := walk_entry hentries hentry
    have hdeep : Deep ((Pointer.root.push side.key).push name) := by simp [Deep, Pointer.push, Pointer.root]
    have hparameter := walk_field hfunction hw
    rw [isUserKeyed_of_deep hdeep] at hparameter
    refine ⟨((Pointer.root.push side.key).push name).push slot.key, hdeep.push _, ?_⟩
    cases side <;> cases slot <;> exact hparameter

/-! ## Definitions that no list leads to -/

theorem eq_empty_of_follow? {ways : List Way} {x : Definition} (h : Definition.follow? {} ways = some x) :
    x = {} := by
  cases ways with
  | nil => exact (Option.some.inj h).symm
  | cons way ways =>
    obtain ⟨y, hy, _⟩ := Option.bind_eq_some_iff.mp h
    cases way <;> cases hy

/-- The definition was read from a description that is in order, or it stands for none. -/
def Checked (schemas : List String) (d : Definition) : Prop :=
  d = {} ∨ ∃ source members place, (Keyed.keys members).Nodup ∧
    Definition.read source (.object members) = .ok d ∧ checkDescription schemas members place = []

theorem Checked.legal {schemas : List String} {d : Definition} (h : Checked schemas d) : d.Legal := by
  rcases h with rfl | ⟨source, members, place, hnodup, hread, hcheck⟩
  · exact Definition.legal_empty
  · exact legal_of_check hnodup hread hcheck

/-- The definition was read from `v`, which the walk went over as a description. -/
structure Walked (schemas : List String) (v : Value) (d : Definition) : Prop where
  unrepeated : v.Unrepeated
  walk : ∃ place, Deep place ∧ Structure.walk schemas place true v = []
  read : ∃ source, Definition.read source v = .ok d

section

variable {schemas : List String} {v : Value} {d x : Definition}

theorem Walked.checked (h : Walked schemas v d) (hlist : v.isArray = false) : Checked schemas d := by
  obtain ⟨hv, ⟨place, _, hwalk⟩, source, hread⟩ := h
  obtain ⟨members, rfl⟩ := Definition.object_of_read hread hlist
  exact Or.inr ⟨source, members, place, (Value.unrepeated_object.mp hv).1, hread, (walk_object.mp hwalk).1 rfl⟩

theorem Walked.below {way : Way} (h : Walked schemas v d) (hlist : v.isArray = false) (hx : d.below? way = some x) :
    x = {} ∨ ∃ w, v.follow? way.keys = some w ∧ Walked schemas w x := by
  obtain ⟨hv, ⟨place, hplace, hwalk⟩, source, hread⟩ := h
  rcases Definition.read_below hv hread hlist hx with rfl | ⟨w, source', hw, hread'⟩
  · exact Or.inl rfl
  · exact Or.inr ⟨w, hw, hv.follow? hw, walk_below hplace hwalk hw, source', hread'⟩

/-- Below a description that was walked over, every definition is checked that no list leads to. -/
theorem Walked.checked_of_follow? {ways : List Way} (h : Walked schemas v d)
    (hlist : v.meetsList (ways.flatMap Way.keys) = false) (hx : d.follow? ways = some x) : Checked schemas x := by
  induction ways generalizing v d with
  | nil => cases hx; exact h.checked hlist
  | cons way ways ih =>
    obtain ⟨y, hy, hx⟩ := Option.bind_eq_some_iff.mp hx
    rcases h.below (Value.not_isArray_of_not_meetsList hlist) hy with rfl | ⟨w, hw, hbelow⟩
    · exact Or.inl (eq_empty_of_follow? hx)
    · exact ih hbelow (Value.meetsList_of_follow? hlist hw) hx

end

/-- Below a description that was walked over, every definition is legal that no list leads to. -/
theorem legal_of_walk {schemas : List String} {ways : List Way} {place : Pointer} {source : Source} {v : Value}
    {d x : Definition} (hv : v.Unrepeated) (hplace : Deep place) (hwalk : walk schemas place true v = [])
    (hread : Definition.read source v = .ok d) (hlist : v.meetsList (ways.flatMap Way.keys) = false)
    (hx : d.follow? ways = some x) : x.Legal :=
  (Walked.checked_of_follow? ⟨hv, ⟨place, hplace, hwalk⟩, source, hread⟩ hlist hx).legal

end Structure

/-! ## Reading a document -/

theorem readDocument_functions {raw : Value} {doc : FunctionDocument} {warnings : List Diagnostic}
    (h : readDocument raw = ⟨some (.functions doc), [], warnings⟩) :
    Structure.check raw = [] ∧ FunctionDocument.read raw = .ok doc := by
  unfold readDocument at h
  cases hversion : Document.statedVersion? raw with
  | none => rw [hversion] at h; cases h
  | some version =>
    rw [hversion] at h
    simp only at h
    cases hread : Document.read version raw with
    | error e => rw [hread] at h; cases h
    | ok document =>
      rw [hread] at h
      obtain ⟨rfl, herrors, _⟩ : document = .functions doc ∧ _ ∧ _ := by simpa [Reading.of] using h
      cases version with
      | v0 =>
        obtain ⟨_, _, hnames⟩ := map_eq_ok.mp hread
        cases hnames
      | _ =>
        obtain ⟨_, hdoc, hfunctions⟩ := map_eq_ok.mp hread
        cases hfunctions
        exact ⟨herrors (by decide), hdoc⟩

/-- In a document in which nothing is found wrong, every definition is legal that no list leads to.
So all of its definitions are legal exactly if those are that a list leads to. -/
theorem legal_of_readDocument {raw : Value} (hraw : raw.Unrepeated) {doc : FunctionDocument}
    {warnings : List Diagnostic} (h : readDocument raw = ⟨some (.functions doc), [], warnings⟩) :
    (∀ root ways d, doc.definition? root ways = some d → raw.meetsList (placeKeys root ways) = false → d.Legal) ∧
      ((∀ root ways d, doc.definition? root ways = some d → d.Legal) ↔
        ∀ root ways d, doc.definition? root ways = some d → raw.meetsList (placeKeys root ways) = true → d.Legal) := by
  obtain ⟨hcheck, hread⟩ := readDocument_functions h
  have hwalk := (List.append_eq_nil_iff.mp hcheck).2
  have hlegal : ∀ root ways d, doc.definition? root ways = some d →
      raw.meetsList (placeKeys root ways) = false → d.Legal := by
    intro root ways d hd hlist
    obtain ⟨r, hroot, hfollow⟩ := Option.bind_eq_some_iff.mp hd
    have hlistRoot := Value.not_meetsList_of_append hlist
    rcases FunctionDocument.read_root hraw hread hlistRoot hroot with rfl | ⟨w, source, hw, hdefinition⟩
    · rw [Structure.eq_empty_of_follow? hfollow]
      exact Definition.legal_empty
    · obtain ⟨place, hplace, hbelow⟩ := Structure.walk_root hwalk hw
      exact Structure.legal_of_walk (hraw.follow? hw) hplace hbelow hdefinition
        (Value.meetsList_of_follow? hlist hw) hfollow
  refine ⟨hlegal, fun hall root ways d hd _ => hall root ways d hd, ?_⟩
  intro hlists root ways d hd
  cases hlist : raw.meetsList (placeKeys root ways) with
  | true => exact hlists root ways d hd hlist
  | false => exact hlegal root ways d hd hlist

/-- A size between -128 and 127. -/
def smallSize : Value :=
  .object [("version", .string "v1"), ("components", .object [("schemas", .object [("Box", .object
    [("properties", .object [("size", .object [("type", .string "integer"), ("format", .string "int8")])])])])])]

/-- The size is a property of a schema, both written as objects. -/
theorem legal_of_readDocument_smallSize :
    smallSize.Unrepeated ∧ ∃ doc d, readDocument smallSize = ⟨some (.functions doc), [], []⟩ ∧
      doc.definition? (.schema 0) [.property 0] = some d ∧ d.format = some (.integer .int8) ∧
      smallSize.meetsList (placeKeys (.schema 0) [.property 0]) = false ∧ d.Legal := by
  have hraw : smallSize.Unrepeated := by
    simp [smallSize, Value.Unrepeated, Value.UnrepeatedMembers, Keyed.keys]
  have hlist : smallSize.meetsList (placeKeys (.schema 0) [.property 0]) = false := rfl
  have hread : readDocument smallSize = ⟨some (.functions { version := "v1", schemas := [("Box",
      { properties := [("size", { type := some .integer, format := some (.integer .int8) })] })] }), [], []⟩ := rfl
  exact ⟨hraw, _, _, hread, rfl, rfl, hlist, (legal_of_readDocument hraw hread).1 _ _ _ rfl hlist⟩

/-- A schema that is written as a list is not checked at all: if the list can be read, the document
is accepted with whatever it says. -/
theorem readDocument_of_list {name : String} (hname : Identifier.isValid name = true) {items : List Value}
    {d : Definition} (hread : Definition.read .inPlace (.array items) = .ok d) :
    readDocument (.object [("version", .string "v1"),
        ("components", .object [("schemas", .object [(name, .array items)])])]) =
      ⟨some (.functions { version := "v1", schemas := [(name, d)] }), [], []⟩ := by
  have hentry : named {} (Definition.read .inPlace) (.object [(name, .array items)]) = .ok [(name, d)] := by
    simp only [named, Decode.map, List.mapM_cons, List.mapM_nil, hread]
    rfl
  have hcomponents : FunctionDocument.readComponents (.object [("schemas", .object [(name, .array items)])]) =
      .ok [(name, d)] := by
    simp [FunctionDocument.readComponents, Record.fold, hentry]
  have hdoc : FunctionDocument.read (.object [("version", .string "v1"),
      ("components", .object [("schemas", .object [(name, .array items)])])]) =
        .ok { version := "v1", schemas := [(name, d)] } := by
    simp [FunctionDocument.read, Record.fold, FunctionDocument.readField, hcomponents, Value.isNull, Decode.string,
      Record.require, bind, Except.bind, pure, Except.pure]
  have hcheck : Structure.check (.object [("version", .string "v1"),
      ("components", .object [("schemas", .object [(name, .array items)])])]) = [] := by
    simp [Structure.check, Structure.checkDeclarations, Structure.schemaNames, Structure.checkFunctions, Value.get?,
      Keyed.get?, Keyed.keys, Structure.checkName, hname, Structure.walk, Structure.walkMembers]
    exact ⟨rfl, fun h => absurd h (by decide), fun h => absurd h (by decide)⟩
  show Reading.of ((FunctionDocument.read _).map .functions) (Structure.check _) [] = _
  rw [hdoc, hcheck]
  rfl

/-- A schema whose type is only ever derived, written as a list. -/
def listedSchema : Value :=
  .object [("version", .string "v1"),
    ("components", .object [("schemas", .object [("A", .array [.string "enum"])])])]

/-- Nothing is found wrong with a type that must not be declared, if a list says it. -/
theorem not_legal_listedSchema :
    listedSchema.Unrepeated ∧ ∃ doc d, readDocument listedSchema = ⟨some (.functions doc), [], []⟩ ∧
      doc.definition? (.schema 0) [] = some d ∧ d.type = some .enum ∧ ¬ d.Legal := by
  have hraw : listedSchema.Unrepeated := by
    simp [listedSchema, Value.Unrepeated, Value.UnrepeatedMembers, Value.UnrepeatedItems, Keyed.keys]
  have hread : Definition.read .inPlace (.array [.string "enum"]) = .ok { type := some .enum } := rfl
  refine ⟨hraw, _, _, readDocument_of_list (by decide) hread, rfl, rfl, ?_⟩
  intro hlegal
  exact absurd (hlegal.type .enum rfl) (by decide)

end BindingSchema
