import SmallC.CommandLine.Files

/-!
# Workspaces

A directory tree as a value. A path is followed part by part from the top of the workspace: an empty
part and `.` stay, `..` goes up, and every part but the last has to lead to a directory. Paths that
leave the workspace find nothing but directories without content.
-/

namespace SmallC.CommandLine

/-- What stands in a workspace. -/
inductive Entry where
  | file (content : ByteArray)
  | directory

/-- Files and directories by the names that lead to them. The top is a directory without being
listed. -/
structure Workspace where
  entries : List (List String × Entry)

/-- Where a path leads. -/
inductive Place where
  /-- A place in the workspace, by the names that lead to it. -/
  | inside (names : List String)
  /-- A directory around the workspace. -/
  | outside
  deriving DecidableEq, Repr

namespace Workspace

/-- The workspace without files. -/
def empty : Workspace :=
  ⟨[]⟩

/-- What stands under names. -/
def lookup? (workspace : Workspace) (names : List String) : Option Entry :=
  if names.isEmpty then some .directory else workspace.entries.lookup names

/-- Puts an entry under names, in place of what stood there. -/
def insert (names : List String) (entry : Entry) (workspace : Workspace) : Workspace :=
  ⟨(names, entry) :: workspace.entries.filter (·.1 != names)⟩

/-- Puts an entry under names, and directories above it where nothing is. -/
def install (names : List String) (entry : Entry) (workspace : Workspace) : Workspace :=
  let above := (List.range names.length).map names.take
  let missing := above.filter fun outer => (workspace.lookup? outer).isNone
  (missing.foldl (fun made outer => made.insert outer .directory) workspace).insert names entry

/-! ## Paths -/

/-- Where one part of a path leads from a place. -/
def follow (workspace : Workspace) (place : Place) (part : String) : Except SystemError Place :=
  match place with
  | .outside => if part ∈ ["", ".", ".."] then .ok .outside else .error .notFound
  | .inside names =>
    match workspace.lookup? names with
    | none => .error .notFound
    | some (.file _) => .error .notDirectory
    | some .directory =>
      if part ∈ ["", "."] then
        .ok place
      else if part = ".." then
        .ok (if names.isEmpty then .outside else .inside names.dropLast)
      else if (workspace.lookup? (names ++ [part])).isSome then
        .ok (.inside (names ++ [part]))
      else
        .error .notFound

/-- The parts of a path. -/
def partsOf (path : String) : List String :=
  path.splitOn "/"

/-- Where the parts of a path begin. -/
def startOf (path : String) : Place :=
  if path.startsWith "/" then .outside else .inside []

/-- Where a path leads. -/
def resolve (workspace : Workspace) (path : String) : Except SystemError Place :=
  (partsOf path).foldlM workspace.follow (startOf path)

/-! ## Operations -/

/-- What stands under a path, if anything does. -/
def kind? (workspace : Workspace) (path : String) : Option FileKind :=
  match workspace.resolve path with
  | .error _ => none
  | .ok .outside => some .other
  | .ok (.inside names) =>
    (workspace.lookup? names).map fun
      | .file _ => .file
      | .directory => .other

/-- The bytes of a file. -/
def read (workspace : Workspace) (path : String) : Except SystemError ByteArray := do
  match ← workspace.resolve path with
  | .outside => throw .isDirectory
  | .inside names =>
    match workspace.lookup? names with
    | some (.file content) => return content
    | some .directory => throw .isDirectory
    | none => throw .notFound

/-- The text of a file that is valid as text. -/
def text? (workspace : Workspace) (path : String) : Option String :=
  (workspace.read path).toOption.bind String.fromUTF8?

/-- The parts of a path that lead to the directory of a file, and the name of the file there. There
is no name when the path can only lead to a directory. -/
def splitName (path : String) : List String × Option String :=
  let parts := partsOf path
  let named := (parts.reverse.dropWhile (· == "")).reverse
  let directory := named.dropLast
  match named.getLast? with
  | none => (directory, none)
  | some last =>
    if named.length < parts.length || last == "." || last == ".." then
      (directory, none)
    else
      (directory, some last)

/-- Makes a text the content of a file, which is new or in place of another file. A file that is
written outside the workspace leaves it as it is. -/
def write (workspace : Workspace) (path text : String) : Except SystemError Workspace := do
  let (directory, name?) := splitName path
  let place ← directory.foldlM workspace.follow (startOf path)
  -- An empty part stays where it is, but only in a directory.
  match ← workspace.follow place "", name? with
  | _, none => throw .isDirectory
  | .outside, some _ => return workspace
  | .inside names, some name =>
    match workspace.lookup? (names ++ [name]) with
    | some .directory => throw .isDirectory
    | _ => return workspace.insert (names ++ [name]) (.file text.toUTF8)

/-- The files of a workspace that changes as they are written. -/
def files : Files (StateM Workspace) where
  kind? path := do return (← get).kind? path
  read path := do return (← get).read path
  write path text := do
    match (← get).write path text with
    | .ok written =>
      set written
      return .ok ()
    | .error error => return .error error

end Workspace

end SmallC.CommandLine
