import TypeUses.Error
import TypeUses.Files.Path

/-!
# Files — what a path leads to

`FileSystem` answers for each path whether something is there: a file with its bytes, a directory,
or something else that has a size and may refuse to be read, as a file does without permission and a
device.  A program reads no more of the world than such answers.

`Store` is a file system of files and directories below a working directory.  A path is followed
component by component (`Store.follow`): `..` leads to the directory above, `.` and an empty
component stay where they are, and each of them, like any component that follows, needs a directory
to start from.  Above the working directory there are directories and nothing else.
-/

namespace TypeUses

/-- What can be found at a path. -/
inductive Entry where
  | file (content : ByteArray)
  | directory
  /-- what states its size, and gives its bytes or refuses to -/
  | special (size : Nat) (content : Except SystemError ByteArray)

/-- What each path leads to. -/
abbrev FileSystem := String → Except SystemError Entry

namespace FileSystem

/-- The size in bytes of what is at a path; a directory counts as empty. -/
def size (fs : FileSystem) (path : String) : Except SystemError Nat :=
  match fs path with
  | .ok (.file content) => .ok content.size
  | .ok .directory => .ok 0
  | .ok (.special size _) => .ok size
  | .error e => .error e

/-- The bytes of what is at a path. -/
def read (fs : FileSystem) (path : String) : Except SystemError ByteArray :=
  match fs path with
  | .ok (.file content) => .ok content
  | .ok .directory => .error .isDirectory
  | .ok (.special _ content) => content
  | .error e => .error e

end FileSystem

/-! ### Stores -/

/-- The entries below a working directory, each with the components of the path to it. -/
abbrev Store := List (List String × Entry)

/-- A place in or above a store: the components from the working directory, last first, or
somewhere above it. -/
inductive Place
  | inside (backwards : List String)
  | above
deriving DecidableEq, Repr

namespace Store

/-- The directories that the entry at a path lies in. -/
def parents (components : List String) : List (List String) :=
  ((List.range components.length).drop 1).map fun n => components.take n

/-- The store with one more entry and the directories around it. -/
def add (store : Store) (path : String) (entry : Entry) : Store :=
  let components := (Path.components path).filter fun c => c != "" && c != "."
  let around := (parents components).filter fun p => (store.lookup p).isNone
  store.filter (fun e => e.1 != components) ++ around.map (fun p => (p, .directory)) ++
    [(components, entry)]

/-- What is at a place. -/
def entryAt (store : Store) : Place → Option Entry
  | .inside [] => some .directory
  | .inside backwards => store.lookup backwards.reverse
  | .above => some .directory

/-- Where one component leads from a directory. -/
def goTo (store : Store) (place : Place) (component : String) : Except SystemError Place :=
  if component = "" ∨ component = "." then .ok place
  else
    match place with
    | .above => if component = ".." then .ok .above else .error .notFound
    | .inside backwards =>
      if component = ".." then
        .ok (match backwards with
          | _ :: up => .inside up
          | [] => .above)
      else
        match store.entryAt (.inside (component :: backwards)) with
        | some _ => .ok (.inside (component :: backwards))
        | none => .error .notFound

/-- Where components lead from a place. -/
def follow (store : Store) (place : Place) : List String → Except SystemError Place
  | [] => .ok place
  | component :: rest =>
    match store.entryAt place with
    | some .directory =>
      match store.goTo place component with
      | .ok place => store.follow place rest
      | .error e => .error e
    | some (.file _) | some (.special ..) => .error .notDirectory
    | none => .error .notFound

/-- The place at which following a path begins: an absolute path leaves the working directory. -/
def origin (path : String) : Place :=
  if path.startsWith "/" then .above else .inside []

/-- What a path leads to. -/
def fileSystem (store : Store) : FileSystem := fun path =>
  if path.contains '\x00' then .error .nulInPath
  else if path.isEmpty then .error .notFound
  else
    match store.follow (origin path) (Path.components path) with
    | .ok place =>
      match store.entryAt place with
      | some entry => .ok entry
      | none => .error .notFound
    | .error e => .error e

end Store

end TypeUses
