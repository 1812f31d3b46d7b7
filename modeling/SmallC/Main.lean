import SmallC.CommandLine.Run

/-!
# The program

Runs the command on the files of the machine.
-/

open SmallC SmallC.CommandLine

namespace SmallC.CommandLine

/-- Why the system refused an operation. -/
def SystemError.ofError : IO.Error → SystemError
  | .noFileOrDirectory .. => .notFound
  | .inappropriateType _ code _ => if code = 20 then .notDirectory else .isDirectory
  | error => .other (toString error)

/-- The result of an operation on files, with refusals as values. -/
def orRefusal (action : IO α) : IO (Except SystemError α) := do
  try
    return .ok (← action)
  catch error =>
    return .error (.ofError error)

/-- The files of the machine. -/
def machineFiles : Files IO where
  kind? path := do
    try
      let found ← IO.FS.realPath path
      let status ← found.metadata
      return some (if status.type == .file then .file else .other)
    catch _ =>
      return none
  read path := orRefusal (IO.FS.readBinFile path)
  write path text := orRefusal (IO.FS.writeFile path text)

/-- Reports are coloured on a terminal, unless the user objects. -/
def choosePalette : IO Palette := do
  let objection ← IO.getEnv "NO_COLOR"
  let stdout ← IO.getStdout
  let onTerminal ← stdout.isTty
  return if onTerminal && objection.isNone then .ansi else .plain

end SmallC.CommandLine

/-- Runs the command, prints what it has to say, and ends with its exit code. -/
def main (arguments : List String) : IO UInt32 := do
  let palette ← choosePalette
  let exit ← run machineFiles palette arguments
  IO.eprint exit.stderr
  IO.print exit.stdout
  return exit.code.toUInt32
