import BindingSchema.Interface
import BindingSchema.Problem

/-!
Which schemas refer to which, and the circles among them.

An edge is a resolved reference somewhere below a schema. A search in depth from every schema,
in the order of declaration, reports each edge that leads back to a schema it is still inside
of. A schema that has been searched is not searched again, so an edge is reported at most once.
-/

namespace BindingSchema

structure Edge where
  target : Nat
  /-- The reference that makes the edge. -/
  place : Pointer
  deriving DecidableEq

/-! ## Edges -/

namespace Edge

mutual

def ofNode (place : Pointer) : Node → List Edge
  | ⟨_, _, _, _, items, additionalProperties, properties, _, reference, _⟩ =>
    (match reference.bind (·.target) with
      | some target => [⟨target, place.push "$ref"⟩]
      | none => []) ++
      ofProperties place properties ++ ofOptional (place.push "items") items ++
      ofOptional (place.push "additionalProperties") additionalProperties

def ofOptional (place : Pointer) : Option Node → List Edge
  | none => []
  | some n => ofNode place n

def ofProperties (place : Pointer) : List Property → List Edge
  | [] => []
  | ⟨name, _, node⟩ :: rest =>
    ofNode (place.append ["properties", name]) node ++ ofProperties place rest

end

end Edge

/-- Schemas by their place in the registry, each with its edges in the order of the nodes. -/
structure ReferenceGraph where
  names : List String
  edges : List (List Edge)

/-- Schemas that refer to each other in a circle. -/
structure Cycle where
  /-- The schemas on the circle; the first comes again at the end. -/
  names : List String
  /-- The reference that closes the circle. -/
  place : Pointer
  deriving DecidableEq

def Cycle.problem (c : Cycle) : Problem := .circularReference c.names

def Cycle.diagnostic (c : Cycle) : Diagnostic := c.problem.located c.place

namespace ReferenceGraph

def ofSchemas (schemas : Keyed Schema) : ReferenceGraph where
  names := Keyed.keys schemas
  edges := schemas.map fun (name, s) => Edge.ofNode (.schema name) s.node

def size (g : ReferenceGraph) : Nat := g.names.length

def name? (g : ReferenceGraph) (schema : Nat) : Option String := g.names[schema]?

/-- No edges leave a place beyond the registry. -/
def edgesOf (g : ReferenceGraph) (schema : Nat) : List Edge := g.edges[schema]?.getD []

/-! ## The search -/

inductive Mark where
  | unvisited
  | onPath
  | done
  deriving DecidableEq

structure Search where
  marks : List Mark
  /-- From the schema where the search began to the one it is in. -/
  path : List Nat := []
  cycles : List Cycle := []

def label (g : ReferenceGraph) (schema : Nat) : String := (g.name? schema).getD ""

/-- The circle that `edge` closes. -/
def close (g : ReferenceGraph) (s : Search) (edge : Edge) : Search :=
  match s.path.dropWhile (· != edge.target) with
  | [] => s
  | circle => { s with cycles := s.cycles ++ [⟨(circle ++ [edge.target]).map g.label, edge.place⟩] }

/-- Every schema on the path is another one, so the size of the graph bounds the depth. -/
def visit (g : ReferenceGraph) : Nat → Nat → Search → Search
  | 0, _, s => s
  | depth + 1, schema, s =>
    let s := { s with marks := s.marks.set schema .onPath, path := s.path ++ [schema] }
    let s := (g.edgesOf schema).foldl
      (fun s edge =>
        match s.marks[edge.target]? with
        | some .unvisited => visit g depth edge.target s
        | some .onPath => g.close s edge
        | some .done | none => s)
      s
    { s with marks := s.marks.set schema .done, path := s.path.dropLast }

def search (g : ReferenceGraph) : Search :=
  (List.range g.size).foldl
    (fun s schema => if s.marks[schema]? = some .unvisited then g.visit g.size schema s else s)
    { marks := List.replicate g.size .unvisited }

def cycles (g : ReferenceGraph) : List Cycle := g.search.cycles

end ReferenceGraph

end BindingSchema
