import BindingSchema.Yaml.Document
import BindingSchema.Yaml.Layout

/-!
YAML texts of one document.
-/

namespace BindingSchema

namespace Yaml

/-- The value a text stands for. A text without a document stands for null. -/
def parse (text : String) : Option Value := do
  if !text.toList.all isTextChar then none
  match ← document? (← tokens? text) with
  | none => some .null
  | some root => (root.value (.ofRoot root) maxNesting |>.run 0).map (·.1)

end Yaml

end BindingSchema
