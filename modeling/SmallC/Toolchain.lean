import SmallC.Text.Quoted

/-!
# Assembler and linker commands

The commands that turn assembly into an object file and an object file into an executable.
-/

namespace SmallC

/-- A program to start and its arguments. -/
structure Command where
  program : String
  arguments : List String
  deriving DecidableEq, Repr

namespace Command

/-- The words of a command. -/
def words (command : Command) : List String :=
  command.program :: command.arguments

/-- A command as messages show it: each word between quotes. -/
def text (command : Command) : String :=
  " ".intercalate (command.words.map Text.quote)

/-- A path as a word of a command. A zero character ends a word, so a path that holds one cannot be
given and a mark stands for it. -/
def pathWord (path : String) : String :=
  if path.toList.contains '\x00' then "<string-with-nul>" else path

/-- Assembles a file. The file is named as assembly, since its name need not tell. -/
def assembler (input output : String) : Command :=
  ⟨"cc", ["-x", "assembler", "-c", "-o", pathWord output, pathWord input]⟩

/-- Links an object file. -/
def linker (input output : String) : Command :=
  ⟨"cc", ["-o", pathWord output, pathWord input]⟩

end Command

end SmallC
