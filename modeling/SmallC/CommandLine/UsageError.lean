import SmallC.CommandLine.Settings
import SmallC.Text.Similarity

/-!
# Usage errors

What can be wrong with the arguments of the command, and the text that the user reads then.
-/

namespace SmallC.CommandLine

/-- The name of the command. -/
def commandName : String :=
  "minicc"

/-- The usage line with options in general. -/
def generalUsage : String :=
  "Usage: " ++ commandName ++ " [OPTIONS] " ++ sourceUsage

/-- The usage line with certain options. -/
def usageWith (options : List Switch) : String :=
  "Usage: " ++ " ".intercalate (commandName :: options.map Switch.usage ++ [sourceUsage])

/-- The arguments of the command: the source file and the options. -/
inductive Argument where
  | source
  | option (option : Switch)
  deriving DecidableEq, Repr

/-- An argument as usage texts show it. -/
def Argument.usage : Argument → String
  | .source => sourceUsage
  | .option which => which.usage

/-- The values that an argument may have, if only some are allowed. -/
def Argument.choices : Argument → List String
  | .source => []
  | .option which => which.choices

/-- The usage line after some arguments were given: with these options, or in general if there were
no arguments. -/
def usageAfter (given : List Argument) : String :=
  if given.isEmpty then
    generalUsage
  else
    usageWith (given.filterMap fun
      | .source => none
      | .option which => some which)

/-- What is wrong with the arguments. -/
inductive UsageError where
  /-- There is no source file. -/
  | missingSource (given : List Argument)
  /-- There is no option of this long name. -/
  | unknownName (name : String) (given : List Argument)
  /-- There is no option of this letter. -/
  | unknownLetter (letter : Char)
  /-- There is an argument too many. -/
  | surplus (text : String)
  | repeated (option : Switch)
  | missingValue (argument : Argument)
  | badValue (argument : Argument) (value : String)
  /-- An option that takes no value has one. -/
  | needlessValue (option : Switch) (value : String) (given : List Argument)
  | noSuchSource (path : String)
  | sourceIsNoFile (path : String)
  deriving DecidableEq, Repr

namespace UsageError

/-- How similar a name has to be before it is proposed. -/
def similarEnough : Text.Fraction :=
  ⟨7, 10⟩

/-- The option that may have been meant by an unknown name. -/
def similarOption? (name : String) : Option Switch :=
  (Text.mostSimilar? similarEnough name (Switch.all.map Switch.name)).bind Switch.ofName?

/-- A hint in a paragraph of its own. -/
def tip (text : String) : String :=
  "\n\n  tip: " ++ text

/-- The hint that something which looks like an option can be passed as a value. -/
def valueTip (text : String) : String :=
  tip ("to pass '" ++ text ++ "' as a value, use '-- " ++ text ++ "'")

/-- The text about an argument that is not expected. -/
def unexpected (text : String) : String :=
  "unexpected argument '" ++ text ++ "' found"

/-- The list of values to choose from, on a line of its own. -/
def choiceLine (choices : List String) : String :=
  if choices.isEmpty then "" else "\n  [possible values: " ++ ", ".intercalate choices ++ "]"

/-- The hint at a similar value. -/
def similarValue (value : String) (choices : List String) : String :=
  match Text.mostSimilar? similarEnough value choices with
  | some choice => tip ("a similar value exists: '" ++ choice ++ "'")
  | none => ""

/-- The text about a long name that no option has. -/
def unknownNameText (name : String) (given : List Argument) : String :=
  let written := "--" ++ name
  match similarOption? name with
  | some meant =>
    let shown := if given.contains (.option meant) then given else given ++ [.option meant]
    unexpected written ++ tip ("a similar argument exists: '" ++ meant.flag ++ "'") ++ "\n\n" ++
      usageAfter shown
  | none => unexpected written ++ valueTip written ++ "\n\n" ++ usageAfter given

/-- What is wrong, with hints and the usage where they help. -/
def text : UsageError → String
  | .missingSource given =>
    "the following required arguments were not provided:\n  " ++ sourceUsage ++ "\n\n" ++
      usageAfter (given ++ [.source])
  | .unknownName name given => unknownNameText name given
  | .unknownLetter letter =>
    let written := "-" ++ String.singleton letter
    unexpected written ++ valueTip written ++ "\n\n" ++ generalUsage
  | .surplus written => unexpected written ++ "\n\n" ++ generalUsage
  | .repeated which =>
    "the argument '" ++ which.usage ++ "' cannot be used multiple times\n\n" ++ generalUsage
  | .missingValue argument =>
    "a value is required for '" ++ argument.usage ++ "' but none was supplied" ++
      choiceLine argument.choices
  | .badValue argument value =>
    "invalid value '" ++ value ++ "' for '" ++ argument.usage ++ "'" ++
      choiceLine argument.choices ++ similarValue value argument.choices
  | .needlessValue which value given =>
    "unexpected value '" ++ value ++ "' for '" ++ which.usage ++
      "' found; no more were expected\n\n" ++ usageAfter (given ++ [.option which])
  | .noSuchSource path => "Source file '" ++ path ++ "' does not exist!\n\n" ++ generalUsage
  | .sourceIsNoFile path => "Input path '" ++ path ++ "' is not a file!\n\n" ++ generalUsage

/-- Whether a character of an argument is repeated in messages. -/
def isRepeated (c : Char) : Bool :=
  c ∈ ['\t', '\n', '\x0c', '\r'] || (0x20 ≤ c.toNat && c.toNat != 0x7f)

/-- The whole message about a usage error. What the user wrote has no effect on a terminal in it. -/
def message (error : UsageError) : String :=
  Text.stripEscapes isRepeated
    ("error: " ++ error.text ++ "\n\nFor more information, try '--help'.\n")

/-- The exit code of the command after a usage error. -/
def exitCode : Nat :=
  2

end UsageError

end SmallC.CommandLine
