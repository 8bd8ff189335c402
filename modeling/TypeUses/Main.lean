import TypeUses.Command.Run
import TypeUses.Concrete.Listing

/-!
# The command

`typeref FILE TYPE_NAME` prints where a named type is used in a C or C++ file.  The parse of a file
is taken from a listing that a parser has left beside it: that of `point.c` as C from
`point.c.c.nodes`, and as C++ from `point.c.cpp.nodes`.  A file without a listing is read as one
without nodes.
-/

namespace TypeUses.Command

/-- Why the system refuses something. -/
def refusal : IO.Error → SystemError
  | .noFileOrDirectory .. => .notFound
  | .inappropriateType .. => .notDirectory
  | .permissionDenied .. => .other "Permission denied (os error 13)"
  | e => .other (toString e)

/-- The bytes of a file on disk. -/
def readBytes (path : String) : IO (Except SystemError ByteArray) := do
  try
    return .ok (← IO.FS.readBinFile path)
  catch e => return .error (refusal e)

/-- What the system says of a path. -/
def lookAt (path : String) : IO (Except SystemError Entry) := do
  try
    let info ← (System.mkFilePath [path]).metadata
    match info.type with
    | .dir => return .ok (.special info.byteSize.toNat (.error .isDirectory))
    | _ => return .ok (.special info.byteSize.toNat (← readBytes path))
  catch e => return .error (refusal e)

/-- The parse that a listing on disk describes, or that of an empty source. -/
def parseFrom (path : String) : IO Concrete.Parse := do
  let empty : Concrete.Parse := ⟨.node { kind := .translationUnit } [], false⟩
  try
    return (Concrete.Parse.ofText? (← IO.FS.readFile path)).getD empty
  catch _ => return empty

/-- The file system as far as a search looks at it. -/
def surroundings (options : Options) : IO FileSystem := do
  let paths := options.config.toList ++ [options.file]
  let seen ← paths.mapM fun path => do return (path, ← lookAt path)
  return fun path => (seen.lookup path).getD (.error .notFound)

/-- Answers a request. -/
def respond (request : Request) : IO Response := do
  match request with
  | .search options =>
    let fs ← surroundings options
    let c ← parseFrom (options.file ++ ".c.nodes")
    let cpp ← parseFrom (options.file ++ ".cpp.nodes")
    let grammar : Grammar := fun language _ =>
      match language with
      | .c => c
      | .cpp => cpp
    return run grammar fs request
  | request =>
    return run (fun _ _ => ⟨.node { kind := .translationUnit } [], false⟩)
      (fun _ => .error .notFound) request

end TypeUses.Command

/-- Answers the arguments on the two output channels. -/
def main (args : List String) : IO UInt32 := do
  let response ← TypeUses.Command.respond (.ofArguments args)
  IO.print response.stdout
  IO.eprint response.stderr
  return response.code.toUInt32
