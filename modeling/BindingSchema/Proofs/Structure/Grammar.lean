import BindingSchema.Proofs.Document.Records
import BindingSchema.Structure
import Mathlib.Data.List.Nodup

/-!
The walk over a document, by the grammar of documents.

What an object of a document is for follows from what the object around it is for and the key it
stands under (`Role.member`). The walk does not know roles: it decides by the keys from the root
and by whether the object around is a description. Both come to the same (`Role.At.isUserKeyed`),
so the walk checks the objects that are descriptions by the grammar, in the order of the document
(`walk_eq_positions`), all of them (`mem_positions`) and none twice (`nodup_positions`).

Proved:
- `check_positions`: what is found wrong with a document is what is wrong with its names, its
  content types and each of its descriptions.
-/

namespace BindingSchema

/-- What holds of an object if it holds of its members, and of all else, holds of every value. -/
theorem Value.induct {P : Value → Prop} (object : ∀ members, (∀ m ∈ members, P m.2) → P (.object members))
    (other : ∀ v, v.isObject = false → P v) : ∀ v, P v :=
  inductItems object (fun _ _ => other _ rfl) fun v hv _ => other v hv

namespace Structure

/-! ## The grammar -/

/-- What an object of a document is for. -/
inductive Role where
  | document
  /-- Functions by name: the exports or the imports. -/
  | functions
  | components
  /-- Schemas by name. -/
  | schemas
  /-- Properties by name. -/
  | properties
  | description
  deriving DecidableEq

namespace Role

/-- Whether an object of the role describes values. The document as a whole counts as one. -/
def isDescription : Role → Bool
  | document | description => true
  | functions | components | schemas | properties => false

/-- What an object is for that stands under `key` in one of the given role. -/
def member : Role → String → Role
  | document, key =>
    if key = "exports" then functions
    else if key = "imports" then functions
    else if key = "components" then components
    else description
  | components, key => if key = "schemas" then schemas else description
  | description, key => if key = "properties" then properties else description
  | functions, _ | schemas, _ | properties, _ => description

end Role

/-- In `v`, which stands at `place` in the role `role`, the object `fields` stands at `place'` in the
role `role'`. -/
inductive Stands : Role → Pointer → Value → Role → Pointer → List (String × Value) → Prop where
  | here {role : Role} {place : Pointer} {fields : List (String × Value)} :
      Stands role place (.object fields) role place fields
  | member {role role' : Role} {place place' : Pointer} {members fields : List (String × Value)} {key : String}
      {v : Value} (mem : (key, v) ∈ members) (below : Stands (role.member key) (place.push key) v role' place' fields) :
      Stands role place (.object members) role' place' fields

/-- A description and where it stands. -/
structure Position where
  place : Pointer
  fields : List (String × Value)

mutual

/-- The descriptions in a value, in the order of the document: each one before those in it. -/
def positions (role : Role) (place : Pointer) : Value → List Position
  | .object fields =>
    (if role.isDescription then [⟨place, fields⟩] else []) ++ positionsOfMembers role place fields
  | _ => []

def positionsOfMembers (role : Role) (place : Pointer) : List (String × Value) → List Position
  | [] => []
  | (key, v) :: rest => positions (role.member key) (place.push key) v ++ positionsOfMembers role place rest

end

theorem positions_object (role : Role) (place : Pointer) (members : List (String × Value)) :
    positions role place (.object members) =
      (if role.isDescription then [⟨place, members⟩] else []) ++
        members.flatMap fun m => positions (role.member m.1) (place.push m.1) m.2 := by
  rw [positions]
  congr 1
  induction members with
  | nil => simp [positionsOfMembers]
  | cons m rest ih => rw [positionsOfMembers, ih, List.flatMap_cons]

theorem positions_of_not_isObject {role : Role} {place : Pointer} {v : Value} (h : v.isObject = false) :
    positions role place v = [] := by
  cases v with
  | object members => cases h
  | _ => rw [positions]; nofun

/-! ## All of them, and each once -/

/-- The descriptions are those of the grammar. -/
theorem mem_positions {v : Value} {p : Position} : ∀ {role : Role} {place : Pointer},
    p ∈ positions role place v ↔
      ∃ role', role'.isDescription = true ∧ Stands role place v role' p.place p.fields := by
  induction v using Value.induct with
  | object members ih =>
    intro role place
    rw [positions_object, List.mem_append, List.mem_flatMap]
    constructor
    · rintro (hp | ⟨⟨key, v⟩, hm, hp⟩)
      · split at hp
        · rename_i hrole
          rw [List.mem_singleton.mp hp]
          exact ⟨role, hrole, .here⟩
        · cases hp
      · obtain ⟨role', hrole, hbelow⟩ := (ih _ hm).mp hp
        exact ⟨role', hrole, .member hm hbelow⟩
    · rintro ⟨role', hrole, hstands⟩
      cases hstands with
      | here => exact Or.inl (by rw [if_pos hrole]; exact List.mem_cons_self)
      | member hm hbelow => exact Or.inr ⟨_, hm, (ih _ hm).mpr ⟨role', hrole, hbelow⟩⟩
  | other v h =>
    intro role place
    rw [positions_of_not_isObject h]
    constructor
    · intro hp
      cases hp
    · rintro ⟨role', _, hstands⟩
      cases hstands <;> cases h

/-- What is in a value stands below the value's place. -/
theorem Stands.exists_append {role role' : Role} {place place' : Pointer} {v : Value}
    {fields : List (String × Value)} (h : Stands role place v role' place' fields) :
    ∃ rest, place' = place.append rest := by
  induction h with
  | here => exact ⟨[], by simp [Pointer.append]⟩
  | @member role role' place place' members fields key v _ _ ih =>
    obtain ⟨rest, hrest⟩ := ih
    exact ⟨key :: rest, by rw [hrest]; simp [Pointer.append, Pointer.push]⟩

theorem exists_append_of_mem {v : Value} {role : Role} {place : Pointer} {p : Position}
    (hp : p ∈ positions role place v) : ∃ rest, p.place = place.append rest := by
  obtain ⟨_, _, hstands⟩ := mem_positions.mp hp
  exact hstands.exists_append

/-- No two descriptions stand at one place. -/
theorem nodup_positions {v : Value} : v.Unrepeated → ∀ {role : Role} {place : Pointer},
    ((positions role place v).map (·.place)).Nodup := by
  induction v using Value.induct with
  | object members ih =>
    intro hv role place
    obtain ⟨hkeys, hmembers⟩ := Value.unrepeated_object.mp hv
    rw [positions_object, List.map_append, List.map_flatMap, List.nodup_append, List.nodup_flatMap]
    refine ⟨?_, ⟨fun m hm => ih m hm (hmembers m hm), ?_⟩, ?_⟩
    · split <;> simp
    · -- what stands under different keys stands at different places
      refine (List.pairwise_map.mp hkeys).imp ?_
      intro m m' hne a ha ha'
      obtain ⟨p, hp, rfl⟩ := List.mem_map.mp ha
      obtain ⟨q, hq, heq⟩ := List.mem_map.mp ha'
      obtain ⟨rest, hrest⟩ := exists_append_of_mem hp
      obtain ⟨rest', hrest'⟩ := exists_append_of_mem hq
      rw [hrest, hrest'] at heq
      simp only [Pointer.append, Pointer.push, List.append_assoc, List.singleton_append, Pointer.mk.injEq,
        List.append_cancel_left_eq, List.cons.injEq] at heq
      exact hne heq.1.symm
    · intro a ha b hb hab
      obtain ⟨m, _, hb⟩ := List.mem_flatMap.mp hb
      obtain ⟨q, hq, rfl⟩ := List.mem_map.mp hb
      obtain ⟨rest, hrest⟩ := exists_append_of_mem hq
      split at ha
      · simp only [List.map_cons, List.map_nil, List.mem_singleton] at ha
        have := congrArg Pointer.segments (ha.symm.trans (hab.trans hrest))
        simp [Pointer.append, Pointer.push] at this
      · cases ha
  | other v h =>
    intro _ role place
    rw [positions_of_not_isObject h]
    exact List.nodup_nil

/-! ## The walk -/

/-- The keys that lead to an object of the role. -/
def Role.At : Role → Pointer → Prop
  | document, place => place.segments = []
  | components, place => place.segments = ["components"]
  | functions, place | schemas, place | properties, place | description, place =>
    place.segments ≠ [] ∧ place.segments ≠ ["components"]

theorem Role.At.push {role : Role} {place : Pointer} (h : role.At place) (key : String) :
    (role.member key).At (place.push key) := by
  have hdeep : place.segments ≠ [] →
      (place.push key).segments ≠ [] ∧ (place.push key).segments ≠ ["components"] := by
    intro hne
    cases hs : place.segments with
    | nil => exact absurd hs hne
    | cons a rest => simp [Pointer.push, hs]
  cases role with
  | document =>
    replace h : place.segments = [] := h
    simp only [member]
    split
    · rename_i hkey
      simp [At, Pointer.push, h, hkey]
    split
    · rename_i hkey
      simp [At, Pointer.push, h, hkey]
    split
    · rename_i hkey
      simp [At, Pointer.push, h, hkey]
    · rename_i hkey
      simp [At, Pointer.push, h, hkey]
  | components =>
    simp only [member]
    split <;> exact hdeep (by rw [show place.segments = _ from h]; simp)
  | description =>
    simp only [member]
    split <;> exact hdeep h.1
  | functions => exact hdeep h.1
  | schemas => exact hdeep h.1
  | properties => exact hdeep h.1

/-- Away from the root and from the components the author chooses names only among properties. -/
theorem isUserKeyed_of_ne {place : Pointer} (hroot : place.segments ≠ []) (hcomponents : place.segments ≠ ["components"])
    (key : String) (described : Bool) : isUserKeyed place key described = (described && key == "properties") := by
  unfold isUserKeyed
  split
  · rename_i hs
    exact absurd hs hroot
  · rename_i hs
    exact absurd hs hcomponents
  · rfl

/-- The walk takes for names of the author's choice what the grammar does. -/
theorem Role.At.isUserKeyed {role : Role} {place : Pointer} (h : role.At place) (key : String) :
    isUserKeyed place key role.isDescription = !(role.member key).isDescription := by
  cases role with
  | document =>
    simp only [Structure.isUserKeyed, show place.segments = [] from h, member]
    split
    · rename_i hkey
      simp [hkey, isDescription]
    split
    · rename_i hkey
      simp [hkey, isDescription]
    split
    · rename_i hkey
      simp [hkey, isDescription]
    · rename_i hexports himports hcomponents
      simp [hexports, himports, hcomponents, isDescription]
  | components =>
    simp only [Structure.isUserKeyed, show place.segments = ["components"] from h, member]
    split
    · rename_i hkey
      simp [hkey, isDescription]
    · rename_i hkey
      simp [hkey, isDescription]
  | description =>
    rw [isUserKeyed_of_ne h.1 h.2]
    simp only [member]
    split
    · rename_i hkey
      simp [hkey, isDescription]
    · rename_i hkey
      simp [hkey, isDescription]
  | functions => exact isUserKeyed_of_ne h.1 h.2 key _
  | schemas => exact isUserKeyed_of_ne h.1 h.2 key _
  | properties => exact isUserKeyed_of_ne h.1 h.2 key _

theorem walkMembers_eq_flatMap (schemas : List String) (place : Pointer) (described : Bool)
    (members : List (String × Value)) :
    walkMembers schemas place described members =
      members.flatMap fun m => walk schemas (place.push m.1) (!isUserKeyed place m.1 described) m.2 := by
  induction members with
  | nil => simp [walkMembers]
  | cons m rest ih => rw [walkMembers, Pointer.pop_push, ih, List.flatMap_cons]

theorem walk_of_not_isObject (schemas : List String) (place : Pointer) (described : Bool) {v : Value}
    (hv : v.isObject = false) : walk schemas place described v = [] := by
  rw [walk]
  rintro members rfl
  cases hv

/-- The walk checks the descriptions, in order. -/
theorem walk_eq_positions (schemas : List String) {v : Value} : ∀ {role : Role} {place : Pointer},
    role.At place → walk schemas place role.isDescription v =
      (positions role place v).flatMap fun p => checkDescription schemas p.fields p.place := by
  induction v using Value.induct with
  | object members ih =>
    intro role place h
    rw [walk, walkMembers_eq_flatMap, positions_object, List.flatMap_append, List.flatMap_assoc]
    congr 1
    · cases role.isDescription <;> simp
    · refine List.flatMap_congr fun m hm => ?_
      rw [h.isUserKeyed, Bool.not_not]
      exact ih m hm (h.push m.1)
  | other v hv =>
    intro role place h
    rw [positions_of_not_isObject hv, walk_of_not_isObject schemas place _ hv, List.flatMap_nil]

/-! ## Names and content types -/

/-- The members of the object that the keys lead to, if they lead to one. -/
def membersAt : Value → List String → List (String × Value)
  | v, [] => v.asObject?.getD []
  | v, key :: keys =>
    match v.get? key with
    | some w => membersAt w keys
    | none => []

theorem schemaNames_eq (doc : Value) : schemaNames doc = Keyed.keys (membersAt doc ["components", "schemas"]) := by
  unfold schemaNames
  simp only [membersAt]
  rcases doc.get? "components" with _ | components
  · rfl
  rcases hs : components.get? "schemas" with _ | schemas
  · simp [hs, Keyed.keys]
  · simp only [Option.bind_some, hs]
    cases schemas <;> rfl

theorem checkFunctions_eq (doc : Value) (kind : String) :
    checkFunctions doc kind = (membersAt doc [kind]).flatMap fun (name, entry) =>
      checkName name ⟨[kind, name]⟩ ++ checkContentType ⟨[kind, name]⟩ entry "input" ++
        checkContentType ⟨[kind, name]⟩ entry "output" := by
  unfold checkFunctions
  simp only [membersAt]
  rcases doc.get? kind with _ | v
  · rfl
  · cases v <;> rfl

/-- What is found wrong with a document, in this order: the name, input and output of each function,
the names of the schemas, and what is wrong with each description, at the place it stands. The
descriptions are those of the grammar, and each is checked once. -/
theorem check_positions (doc : Value) :
    check doc =
      ((["exports", "imports"].flatMap fun kind => (membersAt doc [kind]).flatMap fun (name, entry) =>
          checkName name ⟨[kind, name]⟩ ++ checkContentType ⟨[kind, name]⟩ entry "input" ++
            checkContentType ⟨[kind, name]⟩ entry "output") ++
        (membersAt doc ["components", "schemas"]).flatMap fun (name, _) => checkName name (.schema name)) ++
      ((positions .document .root doc).flatMap fun p =>
        checkDescription (Keyed.keys (membersAt doc ["components", "schemas"])) p.fields p.place) ∧
    (∀ p, p ∈ positions .document .root doc ↔
      ∃ role, role.isDescription = true ∧ Stands .document .root doc role p.place p.fields) ∧
    (doc.Unrepeated → ((positions .document .root doc).map (·.place)).Nodup) := by
  refine ⟨?_, fun p => mem_positions, fun hdoc => nodup_positions hdoc⟩
  have hroot : Role.document.At .root := rfl
  have hwalk := walk_eq_positions (schemaNames doc) (v := doc) hroot
  unfold check
  rw [show true = Role.document.isDescription from rfl, hwalk, schemaNames_eq]
  congr 1
  rw [checkDeclarations, checkFunctions_eq, checkFunctions_eq, schemaNames_eq]
  simp [Keyed.keys, List.flatMap_map]

/-- A schema with a property that is called `properties` and has a type that there is none of. -/
def fieldLike : Value :=
  .object [("version", .string "v1"), ("components", .object [("schemas", .object [("A", .object
    [("properties", .object [("properties", .object [("type", .string "date")])])])])])]

/-- The property is a description, whatever it is called, and so is the schema; the maps that they
stand in are not. -/
theorem check_positions_fieldLike :
    fieldLike.Unrepeated ∧
      check fieldLike = [(Problem.unknownType (.string "date")).located
        ⟨["components", "schemas", "A", "properties", "properties"]⟩] ∧
      ((positions .document .root fieldLike).map (·.place)).Nodup := by
  have hdoc : fieldLike.Unrepeated := by
    simp [fieldLike, Value.Unrepeated, Value.UnrepeatedMembers, Keyed.keys]
  obtain ⟨hcheck, _, hnodup⟩ := check_positions fieldLike
  exact ⟨hdoc, hcheck.trans rfl, hnodup hdoc⟩

end Structure

end BindingSchema
