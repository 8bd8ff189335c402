/-!
# Files — paths and their extensions

A path is a list of components between slashes.  Its last component names the file, and the
extension is what stands behind the last dot of that name.  Empty components and components `.` have
no influence on which component is the last; a path that ends in `..` names no file here.
-/

namespace TypeUses.Path

/-- The components of a path as they stand between its slashes, empty ones included. -/
def components (path : String) : List String :=
  (path.toList.splitOn '/').map String.ofList

/-- The name of the file that a path leads to. -/
def fileName? (path : String) : Option String :=
  match ((components path).filter fun c => c != "" && c != ".").getLast? with
  | some name => if name = ".." then none else some name
  | none => none

/-- What stands behind the last dot of a name, if something stands in front of that dot. -/
def extensionOfName? (name : String) : Option String :=
  let backwards := name.toList.reverse
  let ext := backwards.takeWhile (· != '.')
  match backwards.drop ext.length with
  | '.' :: _ :: _ => some (String.ofList ext.reverse)
  | _ => none

/-- The extension of a path. -/
def extension? (path : String) : Option String :=
  (fileName? path).bind extensionOfName?

end TypeUses.Path
