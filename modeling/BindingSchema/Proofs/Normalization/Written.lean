import BindingSchema.Proofs.Annotation.Frame
import BindingSchema.Proofs.Normalization.Lowered
import BindingSchema.Proofs.Normalization.References

/-!
A normal form is its document, with something derived.

Annotation takes schemas out of the registry and puts them back, goes from one into another, and
stops where something is wrong; whatever it meets, it leaves every root with the node that was lowered
for it, annotated (`root?_becomes`). So each place of what is derived has what the document says at
that place, and nothing is added, lost or moved (`written_derive`). Only types, binding types and the
targets of references are new.
-/

namespace BindingSchema

open Annotation

/-! ## What is written -/

/-- `x` by itself says what `d` says. What `d` says of items, map values and properties is said at the
places below. -/
structure Definition.Written (d : Definition) (x : Node) : Prop where
  format : x.format = d.format
  description : x.description = d.description
  nullable : x.nullable = d.nullable
  enumValues : x.enumValues = d.enumValues
  path : x.reference.map (·.path) = d.reference
  /-- A property is required if its name is in the list of its object. -/
  properties : x.properties.map (fun p => (p.name, p.required)) =
    d.properties.map fun (name, _) => (name, d.required.contains name)

/-- The type that is derived for a definition, if its reference is resolved or not. -/
def Definition.derivedType (d : Definition) (isResolved : Bool) : Option TypeName :=
  if !d.properties.isEmpty then some .object
  else if d.reference.isSome then if isResolved then some .object else d.type
  else if d.enumValues.isSome then some .enum
  else if d.items.isSome then some (d.type.getD .array)
  else if d.additionalProperties.isSome then some .map
  else d.type

namespace Definition

theorem map_toProperties (required : List String) (ds : List (String × Definition)) :
    (toProperties required ds).map (fun p => (p.name, p.required)) =
      ds.map fun (name, _) => (name, required.contains name) := by
  induction ds with
  | nil => rfl
  | cons e rest ih =>
    obtain ⟨name, d⟩ := e
    rw [toProperties, List.map_cons, List.map_cons, ih]

theorem written_of_keeps {d : Definition} {x : Node} (h : d.toNode.Keeps x) : d.Written x := by
  rw [toNode_eq] at h
  refine ⟨h.format, h.description, h.nullable, h.enumValues, ?_, ?_⟩
  · rw [h.path, Option.map_map]
    exact Option.map_id'
  · rw [h.properties, map_toProperties]

theorem type_branch (d : Definition) (isResolved : Bool) :
    d.toNode.branch.type isResolved d.toNode.type = d.derivedType isResolved := by
  obtain ⟨type, format, description, nullable, items, values, properties, required, enumValues, reference⟩ := d
  rw [toNode_eq, derivedType, Node.branch]
  rcases properties with _ | ⟨⟨name, d⟩, ps⟩ <;> rcases reference with _ | path <;>
    rcases enumValues with _ | vs <;> rcases items with _ | item <;> rcases values with _ | value <;>
    simp [toProperties, Branch.type]

end Definition

/-- What a function says besides the nodes of its input and output. -/
def Function.heading (f : Function) :
    String × Option String × List CodeSample × Option ContentType × Option ContentType :=
  (f.name, f.description, f.codeSamples, f.input.map (·.contentType), f.output.map (·.contentType))

/-- What is written of a function besides the definitions of its input and output. -/
def FunctionDefinition.heading (name : String) (f : FunctionDefinition) :
    String × Option String × List CodeSample × Option ContentType × Option ContentType :=
  (name, f.description, f.codeSamples, f.input.map (·.contentType), f.output.map (·.contentType))

theorem FunctionDefinition.heading_toFunction (name : String) (f : FunctionDefinition) :
    (f.toFunction name).heading = f.heading name := by
  simp only [toFunction, Function.heading, heading, Option.map_map]
  rfl

namespace Annotation

/-! ## Functions -/

variable {schemas : Keyed Schema}

theorem contentType_annotateParameter (place : Pointer) (name : String) (p : Option Parameter) (t : State) :
    (annotateParameter schemas place name p t).1.map (·.contentType) = p.map (·.contentType) := by
  cases p <;> rfl

theorem heading_annotateFunction (kind : String) (f : Function) (t : State) :
    (annotateFunction schemas kind f t).1.heading = f.heading := by
  simp only [annotateFunction, Function.heading, contentType_annotateParameter]

theorem map_annotateFunctions (kind : String) (fs : List Function) (t : State) :
    (annotateFunctions schemas kind fs t).1.map (·.heading) = fs.map (·.heading) := by
  induction fs generalizing t with
  | nil => rfl
  | cons f fs ih =>
    rw [annotateFunctions, List.map_cons, List.map_cons, heading_annotateFunction, ih]

theorem becomes_annotateParameter (place : Pointer) (name : String) (p : Option Parameter) (t : State) :
    Option.Rel (fun p q => Becomes (Keyed.keys schemas) ⟨name, false, p.node⟩ q.node) p
      (annotateParameter schemas place name p t).1 := by
  cases p with
  | none => exact .none
  | some p => exact .some ⟨enterFrom schemas, place, t, rfl⟩

theorem becomes_annotateFunctions (kind : String) (fs : List Function) (t : State) (index : Nat) :
    Option.Rel (fun f g => g.name = f.name ∧ ∀ slot, Option.Rel
        (fun p q => Becomes (Keyed.keys schemas) ⟨f.name, false, p.node⟩ q.node) (f.parameter? slot) (g.parameter? slot))
      fs[index]? (annotateFunctions schemas kind fs t).1[index]? := by
  induction fs generalizing t index with
  | nil => exact .none
  | cons f fs ih =>
    cases index with
    | zero =>
      refine .some ⟨rfl, fun slot => ?_⟩
      cases slot with
      | input => exact becomes_annotateParameter _ _ f.input _
      | output => exact becomes_annotateParameter _ _ f.output _
    | succ index => exact ih _ index

/-! ## The registry -/

theorem map_registry {α : Type} {s : State} (f : String × Schema → α)
    (hf : ∀ name (schema : Schema) node, f (name, { schema with node := node }) = f (name, schema))
    (hlen : s.progress.length = schemas.length) : (s.registry schemas).map f = schemas.map f := by
  rw [State.registry]
  generalize s.progress = progress at hlen
  induction schemas generalizing progress with
  | nil => rfl
  | cons e schemas ih =>
    obtain ⟨name, schema⟩ := e
    cases progress with
    | nil => cases hlen
    | cons p progress =>
      rw [List.zipWith_cons_cons, List.map_cons, List.map_cons, ih progress (Nat.succ.inj hlen)]
      cases p with
      | done node => rw [hf]
      | _ => rfl

end Annotation

namespace Normalization

variable (doc : FunctionDocument)

/-! ## What is derived -/

theorem exists_done_last {index : Nat} {name : String} {schema : Schema}
    (hs : (lowered doc).schemas[index]? = some (name, schema)) :
    ∃ node, (last doc).progress[index]? = some (.done node) ∧
      Becomes (Keyed.keys (lowered doc).schemas) ⟨name, false, schema.node⟩ node := by
  have hprogress : (last doc).progress = (annotateSchemas (lowered doc).schemas).progress := (finished_last doc).1
  obtain ⟨node, hp⟩ : ∃ node, (last doc).progress[index]? = some (.done node) := by
    rw [hprogress]
    exact exists_done (List.getElem?_eq_some_iff.mp hs).1
  obtain ⟨depth, t, _, hnode, _⟩ := kept_last index node name schema hp hs
  exact ⟨node, hp, _, _, t, hnode⟩

/-- Every tree begins with the node that was lowered for it, annotated. -/
theorem root?_becomes (root : Root) :
    Option.Rel (fun s t => t.name = s.name ∧ t.isMember = s.isMember ∧
        Becomes (Keyed.keys (lowered doc).schemas) s t.node)
      ((lowered doc).root? root) ((derive doc).interface.root? root) := by
  cases root with
  | schema index =>
    have hroot : (derive doc).interface.root? (.schema index) =
        ((last doc).registry (lowered doc).schemas)[index]?.map fun e => ⟨e.1, false, e.2.node⟩ := rfl
    rw [hroot, Interface.root?]
    cases hs : (lowered doc).schemas[index]? with
    | none =>
      have hlen : ((last doc).registry (lowered doc).schemas).length ≤ index :=
        (length_registry (length_last doc)).trans_le (List.getElem?_eq_none_iff.mp hs)
      rw [List.getElem?_eq_none hlen]
      exact .none
    | some e =>
      obtain ⟨name, schema⟩ := e
      obtain ⟨node, hp, hnode⟩ := exists_done_last doc hs
      rw [getElem?_registry hs hp]
      exact .some ⟨rfl, rfl, hnode⟩
  | parameter side index slot =>
    have hfunctions : Option.Rel (fun f g => g.name = f.name ∧ ∀ slot, Option.Rel
        (fun p q => Becomes (Keyed.keys (lowered doc).schemas) ⟨f.name, false, p.node⟩ q.node)
          (f.parameter? slot) (g.parameter? slot))
        ((lowered doc).functions side)[index]? ((derive doc).interface.functions side)[index]? := by
      cases side with
      | exported => exact becomes_annotateFunctions "exports" _ _ index
      | imported => exact becomes_annotateFunctions "imports" _ _ index
    simp only [Interface.root?]
    generalize ((lowered doc).functions side)[index]? = f at hfunctions
    generalize ((derive doc).interface.functions side)[index]? = g at hfunctions
    cases hfunctions with
    | none => exact .none
    | @some f g h =>
      obtain ⟨hname, hparameters⟩ := h
      have hslot := hparameters slot
      simp only [Option.bind_some]
      generalize f.parameter? slot = p at hslot
      generalize g.parameter? slot = q at hslot
      cases hslot with
      | none => exact .none
      | some hnode => exact .some ⟨hname, rfl, hnode⟩

theorem bare_root {root : Root} {s : Site} (hroot : (lowered doc).root? root = some s) : s.node.Bare := by
  cases root with
  | schema index =>
    obtain ⟨e, hs, rfl⟩ := Option.map_eq_some_iff.mp hroot
    exact bare_lowerSchemas doc e (List.mem_of_getElem? hs)
  | parameter side index slot =>
    obtain ⟨f, hf, hroot⟩ := Option.bind_eq_some_iff.mp hroot
    obtain ⟨p, hp, rfl⟩ := Option.map_eq_some_iff.mp hroot
    exact bare_of_mem_functions (List.mem_of_getElem? hf) hp

/-- Every place of what is derived has what the document says there, with the type that is derived
for it where annotation comes to. -/
theorem written_derive (root : Root) (ways : List Way) :
    Option.Rel (fun d x => d.Written x ∧ x.type =
        if ((lowered doc).site? root ways).isSome then d.derivedType (x.reference.any (·.isResolved)) else d.type)
      (doc.definition? root ways) ((derive doc).interface.node? root ways) := by
  have hlowered := node?_lowered doc root ways
  have hroot := root?_becomes doc root
  generalize hreached : ((lowered doc).site? root ways).isSome = reached
  rw [Interface.node?] at hlowered ⊢
  rw [Interface.site?] at hreached
  rcases hs : (lowered doc).root? root with _ | s <;> rcases ht : (derive doc).interface.root? root with _ | t <;>
    rw [hs, ht] at hroot <;> rw [hs] at hlowered hreached
  · rw [Option.map_eq_none_iff.mp hlowered.symm]
    exact .none
  · cases hroot
  · cases hroot
  · obtain ⟨_, _, hbecomes⟩ := Option.rel_some_some.mp hroot
    have hkeeps := keeps_follow? (bare_root doc hs) hbecomes ways
    rw [Option.bind_some] at hlowered hreached ⊢
    rw [hlowered, hreached] at hkeeps
    generalize t.node.follow? ways = x at hkeeps ⊢
    generalize doc.definition? root ways = d at hkeeps ⊢
    rcases d with _ | d <;> rcases x with _ | x
    · exact .none
    · cases hkeeps
    · cases hkeeps
    · obtain ⟨hx, htype⟩ := Option.rel_some_some.mp hkeeps
      refine .some ⟨Definition.written_of_keeps hx, ?_⟩
      rw [htype, Definition.type_branch, Definition.toNode_eq]

theorem map_schemas_derive :
    ((derive doc).interface.schemas.map fun (key, s) => (key, s.name, s.required)) =
      doc.schemas.map fun (name, d) => (name, name, d.required) := by
  rw [interface_derive, map_registry _ (fun _ _ _ => rfl) (length_last doc), lowerSchemas, List.map_map]
  rfl

theorem map_functions_lowered (side : Side) :
    ((lowered doc).functions side).map (·.heading) =
      (doc.functions side).map fun (name, f) => f.heading name := by
  rw [functions_lowered, lowerFunctions, List.map_map]
  exact List.map_congr_left fun e _ => e.2.heading_toFunction e.1

theorem map_functions_derive (side : Side) :
    ((derive doc).interface.functions side).map (·.heading) =
      (doc.functions side).map fun (name, f) => f.heading name := by
  rw [← map_functions_lowered]
  cases side with
  | exported => exact map_annotateFunctions "exports" _ _
  | imported => exact map_annotateFunctions "imports" _ _

theorem names_functions_derive (side : Side) :
    ((derive doc).interface.functions side).map (·.name) = Keyed.keys (doc.functions side) := by
  have h := congrArg (List.map Prod.fst) (map_functions_derive doc side)
  rwa [List.map_map, List.map_map] at h

theorem names_schemas_derive :
    ((derive doc).interface.schemas.map fun (key, s) => (key, s.name)) = doc.schemas.map fun (name, _) => (name, name) := by
  have h := congrArg (List.map fun e : String × String × List String => (e.1, e.2.1)) (map_schemas_derive doc)
  rwa [List.map_map, List.map_map] at h

variable {doc}

/-- The normal form of a document has the schemas and functions of the document in their order, and
the same places, and says at each place what is written there. The type of a node is the written one
but where annotation comes to it, where it is the one that is derived. -/
theorem normalize_written {n : Normalized} (h : normalize (.functions doc) = .ok n) :
    (n.interface.schemas.map fun (key, s) => (key, s.name, s.required)) =
        (doc.schemas.map fun (name, d) => (name, name, d.required)) ∧
      (∀ side, (n.interface.functions side).map (·.heading) =
        (doc.functions side).map fun (name, f) => f.heading name) ∧
      ∀ root ways, Option.Rel (fun d x => d.Written x ∧ x.type =
          if (n.interface.site? root ways).isSome then d.derivedType (x.reference.any (·.isResolved)) else d.type)
        (doc.definition? root ways) (n.interface.node? root ways) := by
  obtain ⟨herrors, hinterface⟩ := normalize_eq_ok doc h
  rw [hinterface]
  refine ⟨map_schemas_derive doc, map_functions_derive doc, fun root ways => ?_⟩
  rw [isSome_site?_derive herrors]
  exact written_derive doc root ways

/-- An orchard counts its rows and picks baskets of apples. -/
def orchard : FunctionDocument where
  version := "v1"
  exports :=
    [("pick", {
        description := some "Picks what is ripe."
        input := some ⟨.json, { items := some { reference := some "#/components/schemas/Row" } }⟩ })]
  schemas :=
    [("Row",
      { properties :=
          [("trees", { type := some .integer }),
            ("next", { additionalProperties := some { type := some .string }, nullable := some true })]
        required := ["next"] }),
      ("Apple", { enumValues := some [.string "red"], items := some { type := some .number } })]

/-- The second property of a row is required, and a map; the items beside the colours of an apple are
still numbers; and the items of the input are still the reference to a row. -/
theorem normalize_written_orchard :
    ∃ n, normalize (.functions orchard) = .ok n ∧
      (n.interface.schemas.map fun (key, s) => (key, s.name, s.required)) =
        [("Row", "Row", ["next"]), ("Apple", "Apple", [])] ∧
      (n.interface.functions .exported).map (·.heading) =
        [("pick", some "Picks what is ripe.", [], some .json, none)] ∧
      (∃ x, n.interface.node? (.schema 0) [] = some x ∧
        x.properties.map (fun p => (p.name, p.required)) = [("trees", false), ("next", true)]) ∧
      (∃ x, n.interface.node? (.schema 0) [.property 1] = some x ∧ x.nullable = some true ∧ x.type = some .map) ∧
      (∃ x, n.interface.node? (.schema 1) [.items] = some x ∧ x.type = some .number) ∧
      ∃ x, n.interface.node? (.parameter .exported 0 .input) [.items] = some x ∧
        x.reference.map (·.path) = some "#/components/schemas/Row" ∧ x.type = some .object := by
  have hn : normalize (.functions orchard) = .ok ⟨(derive orchard).interface, []⟩ := rfl
  obtain ⟨hschemas, hfunctions, hplaces⟩ := normalize_written hn
  have hrow := (Option.rel_some_some.mp (hplaces (.schema 0) [])).1
  have hnext := Option.rel_some_some.mp (hplaces (.schema 0) [.property 1])
  have hitems := Option.rel_some_some.mp (hplaces (.schema 1) [.items])
  have hinput := Option.rel_some_some.mp (hplaces (.parameter .exported 0 .input) [.items])
  exact ⟨_, hn, hschemas, hfunctions .exported, ⟨_, rfl, hrow.properties⟩, ⟨_, rfl, hnext.1.nullable, hnext.2⟩,
    ⟨_, rfl, hitems.2⟩, _, rfl, hinput.1.path, hinput.2⟩

end Normalization

end BindingSchema
