import SmallC.Compilation

/-!
# Options of the command

The options that the command takes, their names and values, and the settings that they make up.
-/

namespace SmallC.CommandLine

/-- What the command produces. -/
inductive Product where
  | assembly
  | listing
  | executable
  deriving DecidableEq, Repr

namespace Product

/-- All products. -/
def all : List Product :=
  [.assembly, .listing, .executable]

/-- The name of a product on the command line. -/
def name : Product → String
  | .assembly => "asm"
  | .listing => "ir"
  | .executable => "exe"

end Product

/-- The options of the command. -/
inductive Switch where
  | output
  | emit
  | target
  | comments
  | help
  | version
  deriving DecidableEq, Repr

namespace Switch

/-- All options. -/
def all : List Switch :=
  [.output, .emit, .target, .comments, .help, .version]

/-- The long name of an option. -/
def name : Switch → String
  | .output => "output"
  | .emit => "emit"
  | .target => "target"
  | .comments => "comments"
  | .help => "help"
  | .version => "version"

/-- The letter of an option that has one. -/
def letter? : Switch → Option Char
  | .output => some 'o'
  | .help => some 'h'
  | .version => some 'V'
  | _ => none

/-- The name of the value of an option that takes one. -/
def valueName? : Switch → Option String
  | .output => some "OUTPUT"
  | .emit => some "EMIT"
  | .target => some "TARGET"
  | _ => none

/-- Whether an option takes a value. -/
def takesValue (option : Switch) : Bool :=
  option.valueName?.isSome

/-- The values to choose from, if only some are allowed. -/
def choices : Switch → List String
  | .emit => Product.all.map Product.name
  | .target => Target.all.map Target.name
  | _ => []

/-- An option as it is written. -/
def flag (option : Switch) : String :=
  "--" ++ option.name

/-- An option with the name of its value. -/
def usage (option : Switch) : String :=
  match option.valueName? with
  | some value => option.flag ++ " <" ++ value ++ ">"
  | none => option.flag

/-- The option with a given long name. -/
def ofName? (name : String) : Option Switch :=
  all.find? (·.name == name)

/-- The option with a given letter. -/
def ofLetter? (letter : Char) : Option Switch :=
  all.find? (·.letter? == some letter)

end Switch

/-- What a run of the command shall do. -/
structure Settings where
  source : String
  output : Option String
  product : Product
  target : Target
  comments : Bool
  deriving DecidableEq, Repr

/-- How the source file is named in usage texts. -/
def sourceUsage : String :=
  "<SOURCE_FILE>"

end SmallC.CommandLine
