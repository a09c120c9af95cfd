/-!
Paths of files: parts joined by `/`.

Empty parts count for nothing, and neither does a part `.` after the first.
-/

namespace BindingSchema

namespace Path

def parts (path : String) : List String :=
  match (path.splitOn "/").filter (· ≠ "") with
  | [] => []
  | first :: rest => first :: rest.filter (· ≠ ".")

/-- The last part, unless it is a way to another directory. -/
def fileName? (path : String) : Option String :=
  match (parts path).getLast? with
  | some "." | some ".." | none => none
  | some name => some name

/-- What follows the last point of the file's name. A name that only begins with a point has no
extension. -/
def extension? (path : String) : Option String := do
  let name ← fileName? path
  let reversed := name.toList.reverse
  let extension := reversed.takeWhile (· != '.')
  match reversed.drop (extension.length + 1) with
  | [] => none
  | _ => some (String.ofList extension.reverse)

/-- Whether `path` leads to the file called `name`, from the directory that holds it. -/
def leadsTo (path name : String) : Bool :=
  let isDirectory := path.endsWith "/" || path.endsWith "/."
  !path.startsWith "/" && !isDirectory &&
    (parts path).filter (· ≠ ".") == (parts name).filter (· ≠ ".")

end Path

end BindingSchema
