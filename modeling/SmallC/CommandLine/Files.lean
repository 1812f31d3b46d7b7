/-!
# Files as the command sees them

The command asks what stands under a path, reads a file and writes one. The operations are kept in a
record over a monad, so that the same command runs on the files of a machine and on a workspace that
is a value.
-/

namespace SmallC.CommandLine

/-- What can stand under a path. -/
inductive FileKind where
  | file
  | other
  deriving DecidableEq, Repr

/-- Why the system refuses an operation. -/
inductive SystemError where
  | notFound
  | notDirectory
  | isDirectory
  | notSupported
  | other (text : String)
  deriving DecidableEq, Repr

/-- The text of a refusal, with its number. -/
def SystemError.message : SystemError → String
  | .notFound => "No such file or directory (os error 2)"
  | .notDirectory => "Not a directory (os error 20)"
  | .isDirectory => "Is a directory (os error 21)"
  | .notSupported => "Operation not supported (os error 95)"
  | .other text => text

/-- The operations on files. -/
structure Files (m : Type → Type) where
  /-- What stands under a path, if anything does. -/
  kind? : String → m (Option FileKind)
  /-- The bytes of a file. -/
  read : String → m (Except SystemError ByteArray)
  /-- Makes a text the content of a file. -/
  write : String → String → m (Except SystemError Unit)

end SmallC.CommandLine
