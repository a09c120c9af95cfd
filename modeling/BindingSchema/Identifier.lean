/-!
The grammar of declared names.

Names of functions, schemas and properties and the values of enums become symbols in every
target language, so they must be identifiers in all of them.
-/

namespace BindingSchema

namespace Identifier

def isLetter (c : Char) : Bool := c.isAlpha || c == '_' || c == '$'

def isLetterOrDigit (c : Char) : Bool := isLetter c || c.isDigit

def isValidChars : List Char → Bool
  | [] => false
  | c :: cs => isLetter c && cs.all isLetterOrDigit

/-- A letter, `_` or `$`, then letters, digits, `_` or `$`; ASCII only. -/
def isValid (name : String) : Bool := isValidChars name.toList

/-- The grammar as it is shown to authors. -/
def pattern : String := "^[a-zA-Z_$][a-zA-Z0-9_$]*$"

def invalidMessage (name : String) : String :=
  "Invalid identifier: \"" ++ name ++ "\". Must match /" ++ pattern ++ "/"

end Identifier

end BindingSchema
