import SmallC.Assembly.Emission
import SmallC.Graph.Lowering
import SmallC.Parse.Program
import SmallC.Report
import SmallC.Semantic.Check

/-!
# Compilation

A program is parsed, checked and lowered, and each step says in a log what it did. Nothing is
lowered unless the whole program passes the checks. The log of a step that fails ends where it
failed.
-/

namespace SmallC

/-! ## Failures -/

/-- Why a program is not compiled. -/
inductive CompileError where
  | unparsed (error : SyntaxError)
  | unchecked (error : SemanticError)
  /-- The compiler itself is at fault. -/
  | internal (fault : Fault)
  deriving Repr

namespace CompileError

/-- The exit code of the command after a failure. -/
def exitCode : CompileError → Nat
  | .unparsed _ => 1
  | .unchecked error => error.cause.exitCode
  | .internal _ => 101

/-- The report of a failure. A fault is about no place of the source. -/
def report? (palette : Palette) (source : Source) : CompileError → Option String
  | .unparsed error => Report.located? palette .error source error.message error.span
  | .unchecked error => Report.located? palette .error source error.cause.message error.span
  | .internal fault => fault.message?.map (Report.plain palette .error)

end CompileError

/-! ## Logs -/

/-- How important an entry of the log is. -/
inductive LogLevel where
  | info
  | debug
  | trace
  deriving DecidableEq, Repr

/-- A level as the log shows it. -/
def LogLevel.name : LogLevel → String
  | .info => "INFO"
  | .debug => "DEBUG"
  | .trace => "TRACE"

/-- An entry of the log. -/
structure LogEntry where
  level : LogLevel
  message : String
  deriving DecidableEq, Repr

/-- The outcome of a step together with what it logged. -/
structure Logged (α : Type) where
  log : List LogEntry
  outcome : Except CompileError α

namespace Logged

/-- A step that logs entries and does nothing else. -/
def entries (log : List LogEntry) : Logged Unit :=
  ⟨log, .ok ()⟩

/-- A step that logs one entry. -/
def entry (level : LogLevel) (message : String) : Logged Unit :=
  entries [⟨level, message⟩]

/-- A step that logs nothing. -/
def quiet (outcome : Except CompileError α) : Logged α :=
  ⟨[], outcome⟩

/-- Goes on with another step, unless the first one failed. -/
def andThen (first : Logged α) (next : α → Logged β) : Logged β :=
  match first.outcome with
  | .ok value => ⟨first.log ++ (next value).log, (next value).outcome⟩
  | .error error => ⟨first.log, .error error⟩

instance : Monad Logged where
  pure value := quiet (.ok value)
  bind := andThen

end Logged

/-! ## Steps -/

/-- A program that passed the checks: its graphs and what was noticed about it. -/
structure Compilation where
  graphs : List Graph
  warnings : List Warning
  deriving Repr

/-- The entry that tells how a function was lowered. -/
def loweredEntry (graph : Graph) : LogEntry :=
  ⟨.debug, "lowered `" ++ graph.name ++ "` into " ++ toString graph.order.length ++
    " blocks and " ++ toString graph.localsSize ++ " bytes of locals"⟩

/-- Parses, checks and lowers a source. -/
def compile (source : Source) : Logged Compilation := do
  Logged.entry .info ("parsing " ++ source.origin.label)
  let program ← Logged.quiet ((parseProgram source.text).mapError .unparsed)
  let count := toString program.functions.length
  Logged.entry .info ("validating " ++ count ++ " functions")
  let warnings ← Logged.quiet (program.check.mapError .unchecked)
  Logged.entry .debug
    ("validated " ++ count ++ " functions with " ++ toString warnings.length ++ " warnings")
  Logged.entry .info "lowering to IR"
  let graphs ← Logged.quiet (program.lower.mapError .internal)
  Logged.entries (graphs.map loweredEntry)
  return ⟨graphs, warnings⟩

/-- The machine and system that code is emitted for. -/
inductive Target where
  | x86LinuxGnu
  deriving DecidableEq, Repr

namespace Target

/-- All targets. -/
def all : List Target :=
  [.x86LinuxGnu]

/-- The name of a target on the command line. -/
def name : Target → String
  | .x86LinuxGnu => "x86_64-linux-gnu"

/-- The name of a target in the log. -/
def logName : Target → String
  | .x86LinuxGnu => "x86_64LinuxGnu"

end Target

namespace Compilation

/-- The entry that tells that a block is emitted. -/
def emittedEntry (block : BasicBlock) : LogEntry :=
  ⟨.trace, "emitting " ++ block.label ++ " (" ++ toString block.instructions.length ++
    " instructions)"⟩

/-- The blocks of graphs in the order in which they are emitted. -/
def emittedBlocks (graphs : List Graph) : Except Fault (List BasicBlock) := do
  let blocks ← graphs.mapM Graph.orderedBlocks
  return blocks.flatten.map Prod.snd

/-- The assembly of a program. -/
def assembly (target : Target) (options : Assembly.Options) (compilation : Compilation)
    (strip : String → String := Text.stripEscapes Text.isPrinting) : Logged String := do
  Logged.entry .info ("emitting assembly for " ++ target.logName)
  let blocks ← Logged.quiet ((emittedBlocks compilation.graphs).mapError .internal)
  Logged.entries (blocks.map emittedEntry)
  let lines ← Logged.quiet
    ((Assembly.emitProgram options compilation.graphs strip).mapError .internal)
  return Assembly.Line.render lines

/-- The listing of the graphs of a program. -/
def listing (palette : Palette) (compilation : Compilation) : Logged String :=
  Logged.quiet ((Graph.listingOfAll palette compilation.graphs).mapError .internal)

end Compilation

end SmallC
