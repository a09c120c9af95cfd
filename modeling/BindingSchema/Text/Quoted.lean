import BindingSchema.Text.Unseen

/-!
Strings quoted for a message: what a reader could not see is shown by an escape.
-/

namespace BindingSchema

namespace Text

private def hexDigits (n : Nat) : String := String.ofList (Nat.toDigits 16 n)

def quotedChar (c : Char) : String :=
  match c with
  | '"' => "\\\""
  | '\\' => "\\\\"
  | '\n' => "\\n"
  | '\r' => "\\r"
  | '\t' => "\\t"
  | '\x00' => "\\0"
  | c => if isUnseen c then "\\u\x7b" ++ hexDigits c.toNat ++ "\x7d" else String.singleton c

def quoted (s : String) : String := "\"" ++ String.join (s.toList.map quotedChar) ++ "\""

end Text

end BindingSchema
