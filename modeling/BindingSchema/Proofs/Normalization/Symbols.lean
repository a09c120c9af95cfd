import BindingSchema.Proofs.Normalization.Placeholders
import BindingSchema.Proofs.Normalization.Reports

/-!
Every symbol is a legal name.

What is generated from a normal form takes its symbols from the names of functions, schemas and
properties and from the objects and enums in types, wherever these were copied to. An object or enum is
called after the site it stands at, or after the schema that a reference stands for (`legal_of_means`),
and a site after a name that the document declares (`name_of_site?`); the values of an enum are looked at
where the enum stands. So in a document that is accepted all symbols are legal, and one that declares a
name that is not is turned down with one error for each such name (`normalize_symbols`).
-/

namespace BindingSchema

open Annotation

/-! ## Symbols -/

/-- The names that a shape brings along itself. -/
def Shape.symbols : Shape → List String
  | .object name _ => [name]
  | .enumeration name _ values => name :: values
  | _ => []

/-- The names of the objects and enums in a type, at any depth, and the values of the enums. -/
def BindingType.symbols (t : BindingType) : List String := t.parts.flatMap (·.shape.symbols)

def Node.symbols (n : Node) : List String :=
  n.properties.map (·.name) ++ n.bindingType.toList.flatMap (·.symbols)

/-- Everything that becomes a symbol. -/
def Interface.symbols (i : Interface) : List String :=
  i.exports.map (·.name) ++ i.imports.map (·.name) ++ i.schemas.flatMap (fun (key, s) => [key, s.name]) ++
    i.nodes.flatMap (·.symbols)

namespace BindingType

theorem symbols_eq (t : BindingType) : t.symbols = t.shape.symbols ++ t.shape.parts.flatMap (·.shape.symbols) := by
  obtain ⟨shape, nullable⟩ := t
  rw [symbols, parts, List.flatMap_cons]

theorem symbols_withNullable (t : BindingType) (nullable : Bool) : (t.withNullable nullable).symbols = t.symbols := by
  rw [symbols_eq, symbols_eq]
  rfl

theorem symbols_object (name : String) (ts : List BindingType) :
    (object name ts).symbols = name :: ts.flatMap (·.symbols) := by
  rw [symbols_eq]
  show name :: (partsOfAll ts).flatMap _ = _
  rw [partsOfAll_eq, List.flatMap_assoc]
  rfl

theorem symbols_enumeration (name : String) (values : List String) :
    (enumeration name values).symbols = name :: values := by
  simp [symbols_eq, enumeration, plain, Shape.symbols, Shape.parts, string, parts]

theorem symbols_array (t : BindingType) : (array t).symbols = t.symbols := symbols_eq _

theorem symbols_map (t : BindingType) : (map t).symbols = t.symbols := symbols_eq _

theorem symbols_of_nameless {t : BindingType} (hname : t.name? = none) (hparts : t.shape.parts = []) :
    t.symbols = [] := by
  rw [symbols_eq, hparts]
  obtain ⟨shape, nullable⟩ := t
  cases shape with
  | object => cases hname
  | enumeration => cases hname
  | _ => rfl

end BindingType

/-- Every symbol that a type takes from the site itself is legal. -/
structure Site.Legal (names : List String) (s : Site) : Prop where
  plain : s.Plain names
  name : Identifier.Legal s.name

namespace Annotation

/-! ## Meanings -/

theorem symbols_declaredType {type : Option TypeName} {format : Option Format} {isMember : Bool} {t : BindingType}
    (h : declaredType type format isMember = some t) : t.symbols = [] := by
  rcases nameless_declaredType h with rfl | ⟨hname, hparts⟩
  · rfl
  · exact BindingType.symbols_of_nameless hname hparts

/-- What a node means has legal symbols if all sites below it are legal, and so are those below all
schemas. The induction follows the meaning: a reference goes on at its schema, and takes its name. -/
theorem legal_of_means {schemas : Keyed Schema}
    (hschemas : ∀ target schema, Keyed.get? schemas target = some schema →
      ∀ ways s, Site.follow? ⟨target, false, schema.node⟩ ways = some s → s.Legal (Keyed.keys schemas))
    {name : String} {isMember : Bool} {n : Node} {t : Option BindingType} (h : Means schemas name isMember n t) :
    (∀ ways s, Site.follow? ⟨name, isMember, n⟩ ways = some s → s.Legal (Keyed.keys schemas)) →
      ∀ u, t = some u → ∀ symbol ∈ u.symbols, Identifier.Legal symbol := by
  induction h with
  | @properties name isMember n ps types hb _ ih =>
    rintro hsites u ⟨⟩ symbol hsymbol
    obtain ⟨hsite, hmembers⟩ := (Site.forall_follow?_of_properties (s := ⟨name, isMember, n⟩) hb).mp hsites
    rw [BindingType.symbols_withNullable, BindingType.symbols_object, List.mem_cons] at hsymbol
    rcases hsymbol with rfl | hsymbol
    · exact hsite.name
    · obtain ⟨t, ht, hsymbol⟩ := List.mem_flatMap.mp hsymbol
      obtain ⟨p, hp, rfl⟩ := List.mem_map.mp ht
      exact ih p hp (hmembers p hp) _ rfl symbol hsymbol
  | @reference name isMember n r target schema t _ _ hget _ ih =>
    rintro _ u ⟨⟩ symbol hsymbol
    rw [BindingType.symbols_withNullable] at hsymbol
    cases t with
    | none => cases hsymbol
    | some t =>
      -- the name and the sites of the node are not looked at, only those of the schema
      exact ih (hschemas target schema hget) t rfl symbol hsymbol
  | @enumeration name isMember n values hb =>
    rintro hsites u ⟨⟩ symbol hsymbol
    have hsite := hsites [] _ rfl
    rw [BindingType.symbols_withNullable, BindingType.symbols_enumeration, List.mem_cons] at hsymbol
    rcases hsymbol with rfl | hsymbol
    · exact hsite.name
    · obtain ⟨v, hv, hstring⟩ := List.mem_filterMap.mp hsymbol
      obtain ⟨value, rfl, hvalid⟩ := hsite.plain.enumeration values hb v hv
      cases hstring
      exact Identifier.isValid_iff_legal.mp hvalid
  | @items name isMember n item t hb _ ih =>
    rintro hsites u ⟨⟩ symbol hsymbol
    obtain ⟨_, helement⟩ := (Site.forall_follow?_of_items (s := ⟨name, isMember, n⟩) hb).mp hsites
    rw [BindingType.symbols_withNullable, BindingType.symbols_array] at hsymbol
    exact ih helement t rfl symbol hsymbol
  | @mapValues name isMember n value t hb _ ih =>
    rintro hsites u ⟨⟩ symbol hsymbol
    obtain ⟨_, helement⟩ := (Site.forall_follow?_of_mapValues (s := ⟨name, isMember, n⟩) hb).mp hsites
    rw [BindingType.symbols_withNullable, BindingType.symbols_map] at hsymbol
    exact ih helement t rfl symbol hsymbol
  | declared _ =>
    intro _ u hu symbol hsymbol
    obtain ⟨t, ht, rfl⟩ := Option.map_eq_some_iff.mp hu
    rw [BindingType.symbols_withNullable, symbols_declaredType ht] at hsymbol
    cases hsymbol

end Annotation

namespace Normalization

variable {doc : FunctionDocument}

/-! ## Names in a document -/

/-- A site is called after where it begins, or after a property on the way. -/
theorem name_of_site? {P : String → Prop} (hnames : ∀ x ∈ doc.names, P x.name) {root : Root} {ways : List Way}
    {s : Site} (hs : (lowered doc).site? root ways = some s) : P s.name := by
  obtain ⟨hfunctions, hschemas, hproperties⟩ := FunctionDocument.forall_mem_names.mp hnames
  induction ways using List.reverseRecOn generalizing s with
  | nil =>
    obtain ⟨s, hroot, ⟨⟩⟩ := Option.bind_eq_some_iff.mp hs
    cases root with
    | schema index =>
      obtain ⟨e, he, rfl⟩ := Option.map_eq_some_iff.mp hroot
      exact hschemas _ (keys_lowerSchemas doc.schemas ▸ List.mem_map_of_mem (List.mem_of_getElem? he))
    | parameter side index slot =>
      obtain ⟨f, hf, hroot⟩ := Option.bind_eq_some_iff.mp hroot
      obtain ⟨p, _, rfl⟩ := Option.map_eq_some_iff.mp hroot
      rw [functions_lowered] at hf
      obtain ⟨e, he, rfl⟩ := List.mem_map.mp (List.mem_of_getElem? hf)
      exact hfunctions side _ (List.mem_map_of_mem he)
  | append_singleton ways way ih =>
    rw [Interface.site?_concat] at hs
    obtain ⟨t, ht, hs⟩ := Option.bind_eq_some_iff.mp hs
    rcases Site.below?_eq_some.mp hs with ⟨index, ps, p, _, hb, hp, rfl⟩ | ⟨_, _, _, rfl⟩ | ⟨_, _, _, rfl⟩
    · have hnode := Interface.node?_of_site? ht
      rw [node?_lowered] at hnode
      obtain ⟨d, hd, hnode⟩ := Option.map_eq_some_iff.mp hnode
      refine hproperties root ways d hd _ (Definition.name_mem_keys (p := p) ?_)
      rw [hnode, (Node.branch_eq_properties.mp hb).2]
      exact List.mem_of_getElem? hp
    · exact ih (s := t) ht
    · exact ih (s := t) ht

section

variable (h : (derive doc).diagnostics.errors = [])

include h

theorem legal_of_mem_names : ∀ x ∈ doc.names, Identifier.Legal x.name := fun x hx =>
  Identifier.isValid_iff_legal.mp ((errors_derive_eq_nil.mp h).names x ((perm_declarations doc).mem_iff.mpr hx))

theorem legal_site {root : Root} {ways : List Way} {s : Site} (hs : (lowered doc).site? root ways = some s) :
    s.Legal (Keyed.keys (lowered doc).schemas) :=
  ⟨(errors_derive_eq_nil.mp h).sites root ways s hs, name_of_site? (legal_of_mem_names h) hs⟩

theorem legal_of_bindingType {x : Node} (hx : x ∈ (derive doc).interface.nodes) {t : BindingType}
    (ht : x.bindingType = some t) : ∀ symbol ∈ t.symbols, Identifier.Legal symbol := by
  obtain ⟨root, ways, hplace⟩ := Interface.exists_node? hx
  rw [Interface.node?, root?_derive h] at hplace
  obtain ⟨_, hroot, hfollow⟩ := Option.bind_eq_some_iff.mp hplace
  obtain ⟨raw, hraw, rfl⟩ := Option.map_eq_some_iff.mp hroot
  rcases follow?_typed (supported_root h hraw).1 hfollow with ⟨s, hs, _, rfl⟩ | ⟨_, hbare⟩
  · have hsite : (lowered doc).site? root ways = some s := by rw [Interface.site?, hraw]; exact hs
    refine legal_of_means (fun target schema hget below u hu => ?_) (means_site h hsite) ?_ t ht
    · obtain ⟨index, _, hindex⟩ := Keyed.get?_eq_some_iff.mp hget
      have htarget : (lowered doc).site? (.schema index) below = some u := by
        rw [Interface.site?, Interface.root?, hindex]
        exact hu
      exact legal_site h htarget
    · intro below u hu
      have hbelow : (lowered doc).site? root (ways ++ below) = some u := by
        rw [Interface.site?_append, hsite]
        exact hu
      exact legal_site h hbelow
  · rw [(Node.bare_iff.mp hbare).1.1] at ht
    cases ht

/-- The properties of every node of a normal form have legal names, whether annotation comes to the node
or not. -/
theorem legal_of_property {x : Node} (hx : x ∈ (derive doc).interface.nodes) {p : Property} (hp : p ∈ x.properties) :
    Identifier.Legal p.name := by
  obtain ⟨root, ways, hplace⟩ := Interface.exists_node? hx
  have hwritten := written_derive doc root ways
  rw [hplace] at hwritten
  cases hd : doc.definition? root ways with
  | none => rw [hd] at hwritten; cases hwritten
  | some d =>
    rw [hd] at hwritten
    have hmem := List.mem_map_of_mem (f := fun p => (p.name, p.required)) hp
    rw [(Option.rel_some_some.mp hwritten).1.properties] at hmem
    obtain ⟨e, he, heq⟩ := List.mem_map.mp hmem
    rw [← show e.1 = p.name from congrArg Prod.fst heq]
    exact (FunctionDocument.forall_mem_names.mp (legal_of_mem_names h)).2.2 root ways d hd _ (List.mem_map_of_mem he)

theorem legal_symbols : ∀ symbol ∈ (derive doc).interface.symbols, Identifier.Legal symbol := by
  obtain ⟨hfunctions, hschemas, _⟩ := FunctionDocument.forall_mem_names.mp (legal_of_mem_names h)
  have hside : ∀ side, ∀ name ∈ ((derive doc).interface.functions side).map (·.name), Identifier.Legal name := by
    intro side
    rw [names_functions_derive]
    exact hfunctions side
  intro symbol hsymbol
  simp only [Interface.symbols, List.mem_append] at hsymbol
  rcases hsymbol with ((hsymbol | hsymbol) | hsymbol) | hsymbol
  · exact hside .exported symbol hsymbol
  · exact hside .imported symbol hsymbol
  · obtain ⟨e, he, hsymbol⟩ := List.mem_flatMap.mp hsymbol
    have hmem := List.mem_map_of_mem (f := fun e : String × Schema => (e.1, e.2.name)) he
    rw [names_schemas_derive] at hmem
    obtain ⟨d, hd, heq⟩ := List.mem_map.mp hmem
    obtain ⟨hkey, hname⟩ : d.1 = e.1 ∧ d.1 = e.2.name := Prod.mk.inj heq
    have hlegal := hschemas d.1 (List.mem_map_of_mem hd)
    rcases List.mem_pair.mp hsymbol with rfl | rfl
    · exact hkey ▸ hlegal
    · exact hname ▸ hlegal
  · obtain ⟨x, hx, hsymbol⟩ := List.mem_flatMap.mp hsymbol
    rw [Node.symbols, List.mem_append] at hsymbol
    rcases hsymbol with hsymbol | hsymbol
    · obtain ⟨p, hp, rfl⟩ := List.mem_map.mp hsymbol
      exact legal_of_property h hx hp
    · obtain ⟨t, ht, hsymbol⟩ := List.mem_flatMap.mp hsymbol
      exact legal_of_bindingType h hx (Option.mem_toList.mp ht) symbol hsymbol

end

/-- All symbols of a normal form are legal. A document that declares a name that is not is turned down;
its errors are then what is required and not there, one for each of these names at its place, what is
wrong with the nodes that annotation comes to, and the circles. -/
theorem normalize_symbols (doc : FunctionDocument) :
    (∀ n, normalize (.functions doc) = .ok n → ∀ symbol ∈ n.interface.symbols, Identifier.Legal symbol) ∧
      ((∃ x ∈ doc.names, ¬ Identifier.Legal x.name) → ∃ e, normalize (.functions doc) = .error e ∧
        e.errors.Perm (requiredErrors doc.schemas ++
          ((doc.names.filter fun x => ¬ Identifier.Legal x.name).map fun x =>
            (Problem.invalidName x.name).located x.place) ++
          ((lowered doc).reached.flatMap fun (place, n) => n.problems (Keyed.keys doc.schemas) place) ++
          (ReferenceGraph.ofSchemas (derive doc).interface.schemas).cycles.map (·.diagnostic))) := by
  constructor
  · intro n hn
    obtain ⟨herrors, hinterface⟩ := normalize_eq_ok doc hn
    rw [hinterface]
    exact legal_symbols herrors
  · rintro ⟨x, hx, hlegal⟩
    have hne : (derive doc).diagnostics.errors ≠ [] := fun h => hlegal (legal_of_mem_names h x hx)
    refine ⟨_, by rw [normalize_functions, if_neg hne], ?_⟩
    have hkeys : Keyed.keys (lowered doc).schemas = Keyed.keys doc.schemas := keys_lowerSchemas doc.schemas
    rw [errors_derive_linked, Declaration.errors_check_eq, ofSchemas_derive, ← hkeys]
    refine List.Perm.append_right _ (List.Perm.append (List.Perm.append_left _ ?_) (perm_errors_last doc))
    exact ((perm_declarations doc).filter _).map _

/-- What is sown in a bed is one of two things. The row is a property of items beside an enum, where nothing
is derived. -/
def garden (bed row : String) : FunctionDocument where
  version := "v1"
  imports := [("sow", { input := some ⟨.json, { reference := some ("#/components/schemas/" ++ bed) }⟩ })]
  schemas :=
    [(bed,
      { properties :=
          [("$crop",
            { enumValues := some [.string "leek", .string "_none"]
              items := some { properties := [(row, {})] } })] })]

/-- Of a bed with a row all symbols are legal, those of the row too. If the name of the bed begins with a
digit and there is a blank in that of the row, there are two errors. -/
theorem normalize_symbols_garden :
    (∃ n, normalize (.functions (garden "Bed" "row1")) = .ok n ∧
      (∀ symbol ∈ ["sow", "Bed", "$crop", "row1", "leek", "_none"], symbol ∈ n.interface.symbols) ∧
      ∀ symbol ∈ n.interface.symbols, Identifier.Legal symbol) ∧
    (∃ x ∈ (garden "1st" "row 1").names, ¬ Identifier.Legal x.name) ∧
    ∃ e, normalize (.functions (garden "1st" "row 1")) = .error e ∧ e.errors.Perm
      [(Problem.invalidName "1st").located ⟨["components", "schemas", "1st"]⟩,
        (Problem.invalidName "row 1").located
          ⟨["components", "schemas", "1st", "properties", "$crop", "items", "properties", "row 1"]⟩] := by
  have hn : normalize (.functions (garden "Bed" "row1")) = .ok ⟨(derive (garden "Bed" "row1")).interface, []⟩ := rfl
  have hx : ∃ x ∈ (garden "1st" "row 1").names, ¬ Identifier.Legal x.name :=
    ⟨⟨"1st", .schema "1st"⟩, List.mem_of_getElem? (i := 1) rfl, by decide⟩
  refine ⟨⟨_, hn, ?_, (normalize_symbols (garden "Bed" "row1")).1 _ hn⟩, hx, ?_⟩
  · decide
  · exact (normalize_symbols (garden "1st" "row 1")).2 hx

end Normalization

end BindingSchema
