import SmallC.CommandLine.Arguments
import SmallC.CommandLine.Files
import SmallC.Toolchain

/-!
# The command

A run reads the arguments and the source file, compiles it, reports what it found, and writes what
was asked for.
-/

namespace SmallC.CommandLine

/-- How a run ends and what it printed. -/
structure Exit where
  code : Nat
  stdout : String
  stderr : String
  deriving DecidableEq, Repr

namespace Exit

/-- A run that only prints. -/
def printed (text : String) : Exit :=
  ⟨0, text, ""⟩

/-- A run that fails with a message. -/
def failed (code : Nat) (message : String) : Exit :=
  ⟨code, "", message⟩

/-- A run that fails because of its arguments. -/
def misused (error : UsageError) : Exit :=
  failed UsageError.exitCode error.message

end Exit

/-- The product of a compilation as text. An executable is made from the assembly. -/
def productText (palette : Palette) (settings : Settings) (compilation : Compilation) :
    Except CompileError String :=
  match settings.product with
  | .listing => (compilation.listing palette).outcome
  | _ => (compilation.assembly settings.target ⟨settings.comments, palette⟩).outcome

/-- The exit after a failed compilation. -/
def compileFailure (palette : Palette) (source : Source) (error : CompileError) : Exit :=
  .failed error.exitCode ((error.report? palette source).getD "")

/-- The message about a file that cannot be written. -/
def writeFailure (path : String) (error : SystemError) : String :=
  "could not write `" ++ path ++ "`: " ++ error.message

/-- The message about an executable: no other program is started, so that the assembler is missing
for it. -/
def buildFailure (output : String) : String :=
  "could not run `" ++ (Command.assembler (output ++ ".s") (output ++ ".o")).text ++ "`: " ++
    SystemError.notSupported.message

/-- Writes the product of a compilation after its warnings. -/
def deliver [Monad m] (files : Files m) (palette : Palette) (settings : Settings)
    (warnings product : String) : m Exit := do
  match settings.product, settings.output with
  | .executable, output =>
    let message := buildFailure (output.getD "a.out")
    return .failed 1 (warnings ++ Report.plain palette .error message)
  | _, none => return ⟨0, product, warnings⟩
  | _, some path =>
    match ← files.write path product with
    | .ok () => return ⟨0, "", warnings⟩
    | .error error =>
      return .failed 1 (warnings ++ Report.plain palette .error (writeFailure path error))

/-- Compiles a source and delivers the product. -/
def compileAndDeliver [Monad m] (files : Files m) (palette : Palette) (settings : Settings)
    (source : Source) : m Exit := do
  match (compile source).outcome with
  | .error error => return compileFailure palette source error
  | .ok compilation =>
    let warnings := (Report.ofWarnings? palette source compilation.warnings).getD ""
    match productText palette settings compilation with
    | .error error => return compileFailure palette source error
    | .ok product => deliver files palette settings warnings product

/-- Reads a source file as text. -/
def readSource [Monad m] (files : Files m) (path : String) : m (Except String Source) := do
  let unreadable (reason : String) := "could not read `" ++ path ++ "`: " ++ reason ++ "\n"
  match ← files.read path with
  | .error error => return .error (unreadable error.message)
  | .ok bytes =>
    match String.fromUTF8? bytes with
    | none => return .error (unreadable "stream did not contain valid UTF-8")
    | some text => return .ok ⟨.file path, text.toList⟩

/-- Runs with settings. -/
def runSettings [Monad m] (files : Files m) (palette : Palette) (settings : Settings) :
    m Exit := do
  match ← files.kind? settings.source with
  | none => return .misused (.noSuchSource settings.source)
  | some .other => return .misused (.sourceIsNoFile settings.source)
  | some .file =>
    match ← readSource files settings.source with
    | .error message => return .failed 1 message
    | .ok source => compileAndDeliver files palette settings source

/-- Runs the command on its arguments. -/
def run [Monad m] (files : Files m) (palette : Palette) (arguments : List String) : m Exit :=
  match parseArguments arguments with
  | .error error => return .misused error
  | .ok .helpSummary => return .printed helpSummary
  | .ok .helpInFull => return .printed helpInFull
  | .ok .version => return .printed versionText
  | .ok (.run settings) => runSettings files palette settings

end SmallC.CommandLine
