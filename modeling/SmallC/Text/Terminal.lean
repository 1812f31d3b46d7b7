/-!
# Text for terminals

A terminal shows most characters, but acts on control characters and on sequences that begin with
the escape character. A text without what a terminal acts on is read off character by character. The
sequences are short ones (`ESC`, intermediate characters, a final character), control sequences
(`ESC [`, parameters, a final character), device strings (`ESC P`, a header like that of a control
sequence, data), commands to the system (`ESC ]`, text, a bell) and strings without a meaning.
-/

namespace SmallC.Text

/-- Where a reader of text for a terminal stands. -/
inductive TerminalState where
  /-- Between sequences. -/
  | ground
  /-- Right after the escape character. -/
  | escape
  /-- Among the intermediate characters of a short sequence. -/
  | intermediates
  /-- In a control sequence. -/
  | controlSequence
  /-- Right after the start of a device string. -/
  | deviceStart
  /-- Among the parameters of a device string. -/
  | deviceParameters
  /-- Among the intermediate characters of a device string. -/
  | deviceIntermediates
  /-- In the data of a device string. -/
  | deviceData
  /-- In a command to the system. -/
  | systemCommand
  /-- In a string without a meaning. -/
  | ignoredString
  deriving DecidableEq, Repr

namespace TerminalState

/-- The state after the character that follows the escape character. -/
def afterEscape (c : Char) : TerminalState :=
  if c.toNat < 0x20 then .escape
  else if c.toNat < 0x30 then .intermediates
  else if c = '[' then .controlSequence
  else if c = 'P' then .deviceStart
  else if c = ']' then .systemCommand
  else if c = 'X' || c = '^' || c = '_' then .ignoredString
  else if c.toNat < 0x7f then .ground
  else .escape

/-- The state after a character of the header of a device string. Once it is in order, a final
character begins the data. -/
def inDeviceHeader (state : TerminalState) (c : Char) : TerminalState :=
  if c.toNat < 0x20 || 0x7f ≤ c.toNat then state
  else if 0x40 ≤ c.toNat then .deviceData
  else if c.toNat < 0x30 then .deviceIntermediates
  else
    match state with
    | .deviceStart => .deviceParameters
    | .deviceParameters => if c.toNat < 0x3c then state else .ignoredString
    | _ => .ignoredString

/-- What follows the end of the data of a device string in the encoding of a character. The data
ends with the byte `0x9c`, also inside a character, and what is left of the character is
unreadable. -/
def afterDeviceData (c : Char) : Option (List Char) :=
  match (String.utf8EncodeChar c).dropWhile (· != 0x9c) with
  | [] => none
  | _ :: rest => some ((rest.filter (0xa0 ≤ ·)).map fun _ => '\ufffd')

/-- Reads a character: the state after it, and what is left of it. The characters to keep are given
for those that stand between sequences and for control characters inside one. -/
def step (keep : Char → Bool) (state : TerminalState) (c : Char) : TerminalState × List Char :=
  let kept := [c].filter keep
  let control := if c.toNat < 0x20 then kept else []
  if c = '\x1b' then (.escape, [])
  else if c = '\x18' || c = '\x1a' then (.ground, kept)
  else
    match state with
    | .ground => (.ground, kept)
    | .escape => (afterEscape c, control)
    | .intermediates =>
      (if 0x30 ≤ c.toNat && c.toNat < 0x7f then .ground else .intermediates, control)
    | .controlSequence =>
      (if 0x40 ≤ c.toNat && c.toNat < 0x7f then .ground else .controlSequence, control)
    | .deviceData =>
      match afterDeviceData c with
      | some left => (.ground, left)
      | none => (.deviceData, [])
    | .systemCommand => (if c = '\x07' then .ground else .systemCommand, [])
    | .ignoredString => (.ignoredString, [])
    | header => (header.inDeviceHeader c, [])

end TerminalState

/-- What is left of a text that is read from a given state. -/
def shownFrom (keep : Char → Bool) : TerminalState → List Char → List Char
  | _, [] => []
  | state, c :: rest =>
    (state.step keep c).2 ++ shownFrom keep (state.step keep c).1 rest

/-- A text without sequences for a terminal and with only some of its other characters. -/
def stripEscapes (keep : Char → Bool) (text : String) : String :=
  String.ofList (shownFrom keep .ground text.toList)

/-- Whether a character is a newline or a character that a terminal shows. -/
def isPrinting (c : Char) : Bool :=
  c = '\n' || !(c.toNat < 0x20 || (0x80 ≤ c.toNat && c.toNat ≤ 0x9f))

end SmallC.Text
