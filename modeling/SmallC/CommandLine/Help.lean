import SmallC.CommandLine.UsageError

/-!
# Help and version

The texts that the command prints about itself: a summary of the options with one line for each, and
the same in full.
-/

namespace SmallC.CommandLine

/-- What the command says about itself. -/
def versionText : String :=
  commandName ++ " 0.1.0\n"

/-- What the command is for. -/
def about : String :=
  "Compiler for a small subset of C targeting x86-64 assembly"

/-- What is said about the output file. -/
def outputHelp : String :=
  "Output path (stdout for asm and ir when omitted, `a.out` for exe)"

/-- What is said about comments. -/
def commentsHelp : String :=
  "Annotate the assembly with the IR it was generated from"

/-- Lines of text, each with its end. -/
def textOfLines (lines : List String) : String :=
  String.join (lines.map (· ++ "\n"))

/-- The help with one line for each option. -/
def helpSummary : String :=
  textOfLines
    [about, "", generalUsage, "",
      "Arguments:",
      "  " ++ sourceUsage ++ "  ", "",
      "Options:",
      "  -o, --output <OUTPUT>  " ++ outputHelp,
      "      --emit <EMIT>      [default: asm] [possible values: asm, ir, exe]",
      "      --target <TARGET>  [default: x86_64-linux-gnu] [possible values: x86_64-linux-gnu]",
      "      --comments         " ++ commentsHelp,
      "  -h, --help             Print help (see more with '--help')",
      "  -V, --version          Print version"]

/-- The help in full. -/
def helpInFull : String :=
  textOfLines
    [about, "", generalUsage, "",
      "Arguments:",
      "  " ++ sourceUsage,
      "          ", "",
      "Options:",
      "  -o, --output <OUTPUT>",
      "          " ++ outputHelp, "",
      "      --emit <EMIT>",
      "          Possible values:",
      "          - asm: Target assembly",
      "          - ir:  Textual dump of the control flow graphs",
      "          - exe: Assembled and linked executable",
      "          ",
      "          [default: asm]", "",
      "      --target <TARGET>",
      "          [default: x86_64-linux-gnu]",
      "          [possible values: x86_64-linux-gnu]", "",
      "      --comments",
      "          " ++ commentsHelp, "",
      "  -h, --help",
      "          Print help (see a summary with '-h')", "",
      "  -V, --version",
      "          Print version"]

end SmallC.CommandLine
