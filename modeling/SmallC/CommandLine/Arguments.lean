import SmallC.CommandLine.Help

/-!
# Arguments of the command

Arguments are read from left to right. An option by its long name may have its value after `=`, and
an option by its letter may have it right after the letter; otherwise the next argument is the
value, unless that one looks like an option. After `--` no argument is an option. A value is looked
at only when the next known argument is read or the arguments end, so that an unknown option is
complained about before a bad value in front of it.
-/

namespace SmallC.CommandLine

/-- What the arguments ask for. -/
inductive Request where
  | run (settings : Settings)
  | helpSummary
  | helpInFull
  | version
  deriving DecidableEq, Repr

/-- Why reading the arguments stops before their end. -/
inductive Stop where
  | asked (request : Request)
  | wrong (error : UsageError)
  deriving DecidableEq, Repr

/-- An argument whose value is still to be looked at. -/
structure Pending where
  argument : Argument
  value : Option String
  deriving DecidableEq, Repr

/-- The arguments read so far. -/
structure Reading where
  /-- The arguments whose values were looked at, in order. -/
  given : List Argument
  pending : Option Pending
  /-- Whether a source file was read, with its value looked at or not. -/
  sourceRead : Bool
  /-- Whether all other arguments are no options. -/
  optionsEnded : Bool
  source : Option String
  output : Option String
  product : Option Product
  target : Option Target
  comments : Bool
  deriving DecidableEq, Repr

namespace Reading

/-- Nothing read. -/
def start : Reading :=
  ⟨[], none, false, false, none, none, none, none, false⟩

/-- Looks at the value of an argument. -/
def accept (argument : Argument) (value : String) (reading : Reading) :
    Except UsageError Reading :=
  if value = "" then
    .error (.missingValue argument)
  else
    match argument with
    | .source => .ok { reading with source := some value }
    | .option .output => .ok { reading with output := some value }
    | .option .emit =>
      match Product.all.find? (·.name == value) with
      | some product => .ok { reading with product := some product }
      | none => .error (.badValue argument value)
    | .option .target =>
      match Target.all.find? (·.name == value) with
      | some target => .ok { reading with target := some target }
      | none => .error (.badValue argument value)
    | .option which => .error (.needlessValue which value reading.given)

/-- Looks at an argument with its value. No option may be given twice. -/
def take (argument : Argument) (value : String) (reading : Reading) :
    Except UsageError Reading :=
  match argument, reading.given.contains argument with
  | .option which, true => .error (.repeated which)
  | _, _ => accept argument value { reading with given := reading.given ++ [argument] }

/-- Looks at the value that is still to be looked at. -/
def settle (reading : Reading) : Except UsageError Reading :=
  match reading.pending with
  | none => .ok reading
  | some ⟨argument, none⟩ => .error (.missingValue argument)
  | some ⟨argument, some value⟩ => take argument value { reading with pending := none }

/-- The arguments given, with the one whose value is still to be looked at. -/
def givenSoFar (reading : Reading) : List Argument :=
  match reading.pending with
  | some ⟨argument, some _⟩ =>
    if reading.given.contains argument then
      reading.given.erase argument
    else
      reading.given ++ [argument]
  | _ => reading.given

/-- Reads an option that takes no value. -/
def readFlag (which : Switch) (inFull : Bool) (reading : Reading) : Except Stop Reading := do
  let settled ← reading.settle.mapError .wrong
  match which with
  | .help => throw (.asked (if inFull then .helpInFull else .helpSummary))
  | .version => throw (.asked .version)
  | _ =>
    if settled.given.contains (.option which) then
      throw (.wrong (.repeated which))
    else
      return { settled with
        given := settled.given ++ [.option which]
        comments := true }

/-- Reads an option that takes a value, which may stand in the same argument. -/
def readOption (which : Switch) (value : Option String) (reading : Reading) :
    Except Stop Reading := do
  let settled ← reading.settle.mapError .wrong
  match value with
  | some text => (settled.take (.option which) text).mapError .wrong
  | none => return { settled with pending := some ⟨.option which, none⟩ }

/-- Divides what stands after `--` into a name and the value after `=`. -/
def divide (text : List Char) : String × Option String :=
  match text.dropWhile (· != '=') with
  | [] => (String.ofList text, none)
  | _ :: value => (String.ofList (text.takeWhile (· != '=')), some (String.ofList value))

/-- Reads an option by its long name. -/
def readLong (text : List Char) (reading : Reading) : Except Stop Reading :=
  let (name, value) := divide text
  match Switch.ofName? name with
  | none => .error (.wrong (.unknownName name reading.givenSoFar))
  | some which =>
    if which.takesValue then
      reading.readOption which value
    else
      match value with
      | some needless =>
        .error (.wrong (.needlessValue which needless
          (reading.given.filter (· != .source))))
      | none => reading.readFlag which true

/-- The value that stands right after the letter of an option. -/
def attachedValue : List Char → Option String
  | [] => none
  | '=' :: value => some (String.ofList value)
  | value => some (String.ofList value)

/-- Reads options by their letters. -/
def readLetters : List Char → Reading → Except Stop Reading
  | [], reading => .ok reading
  | letter :: others, reading =>
    match Switch.ofLetter? letter with
    | none => .error (.wrong (.unknownLetter letter))
    | some which =>
      if which.takesValue then
        reading.readOption which (attachedValue others)
      else do
        let next ← reading.readFlag which false
        readLetters others next

/-- Reads an argument that is no option. -/
def readSource (text : String) (reading : Reading) : Except Stop Reading := do
  if reading.sourceRead then
    throw (.wrong (.surplus text))
  else
    let settled ← reading.settle.mapError .wrong
    return { settled with
      pending := some ⟨.source, some text⟩
      sourceRead := true }

/-- Reads a value or an argument that is no option. -/
def readValue (text : String) (reading : Reading) : Except Stop Reading :=
  match reading.pending with
  | some ⟨argument, none⟩ => .ok { reading with pending := some ⟨argument, some text⟩ }
  | _ => reading.readSource text

/-- Reads an argument. -/
def read (text : String) (reading : Reading) : Except Stop Reading :=
  if reading.optionsEnded then
    reading.readSource text
  else
    match text.toList with
    | ['-', '-'] => .ok { reading with optionsEnded := true }
    | '-' :: '-' :: name => reading.readLong name
    | '-' :: letter :: letters => reading.readLetters (letter :: letters)
    | _ => reading.readValue text

/-- Ends the reading. The source file has to be given; the other settings have defaults. -/
def finish (reading : Reading) : Except UsageError Settings := do
  let settled ← reading.settle
  match settled.source with
  | none => throw (.missingSource settled.given)
  | some source =>
    return {
      source := source
      output := settled.output
      product := settled.product.getD .assembly
      target := settled.target.getD .x86LinuxGnu
      comments := settled.comments }

end Reading

/-- Reads arguments one after the other. -/
def readAll : List String → Reading → Except Stop Reading
  | [], reading => .ok reading
  | first :: others, reading => do
      let next ← reading.read first
      readAll others next

/-- What the arguments of the command ask for. -/
def parseArguments (arguments : List String) : Except UsageError Request :=
  let reading := readAll arguments .start >>= fun last => last.finish.mapError Stop.wrong
  match reading with
  | .ok settings => .ok (.run settings)
  | .error (.asked request) => .ok request
  | .error (.wrong error) => .error error

end SmallC.CommandLine
