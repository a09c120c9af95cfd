/-!
Pointers into a document: the keys on the way from the root, written after `#` and joined by `/`.
-/

namespace BindingSchema

structure Pointer where
  /-- Keys below the root. -/
  segments : List String
  deriving DecidableEq

namespace Pointer

def root : Pointer := ⟨[]⟩

def push (p : Pointer) (segment : String) : Pointer := ⟨p.segments ++ [segment]⟩

def append (p : Pointer) (segments : List String) : Pointer := ⟨p.segments ++ segments⟩

/-- Without the last key. The root has none to lose. -/
def pop (p : Pointer) : Pointer := ⟨p.segments.dropLast⟩

def text (p : Pointer) : String := "/".intercalate ("#" :: p.segments)

theorem pop_push (p : Pointer) (segment : String) : (p.push segment).pop = p := by
  simp [push, pop]

/-! ## Places of declarations -/

/-- A schema of the document. -/
def schema (name : String) : Pointer := ⟨["components", "schemas", name]⟩

end Pointer

end BindingSchema
