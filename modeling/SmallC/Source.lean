import SmallC.Span
import SmallC.Text.Bytes
import SmallC.Text.Lines
import SmallC.Text.Style

/-!
# Source texts

A source is a text together with the place it came from. Places in it are printed as a line number
and a column, both counted from one, and an excerpt shows the line on which a span starts with the
span underlined.
-/

namespace SmallC

/-- Where a text came from. -/
inductive Origin where
  | memory
  | file (path : String)
  deriving DecidableEq, Repr

/-- An origin as it is printed in front of a position. -/
def Origin.label : Origin → String
  | .memory => "<memory>"
  | .file path => path

/-- A text to be compiled. -/
structure Source where
  origin : Origin
  text : List Char
  deriving Repr

namespace Source

/-- A text that was not read from a file. -/
def ofText (text : String) : Source :=
  ⟨.memory, text.toList⟩

/-- The byte offset of the end of the text. -/
def endOffset (source : Source) : Nat :=
  Text.byteLength source.text

/-- The text before an offset. Offsets past the end stand for the end. -/
def before? (source : Source) (offset : Nat) : Option (List Char) :=
  (Text.splitAt? source.text (min offset source.endOffset)).map Prod.fst

/-- The line of an offset, counted from one. -/
def line? (source : Source) (offset : Nat) : Option Nat :=
  (source.before? offset).map fun before => before.count '\n' + 1

/-- The column of an offset in its line, counted in characters from one. -/
def column? (source : Source) (offset : Nat) : Option Nat :=
  (source.before? offset).map fun before => (Text.lastLine before).length + 1

/-- The text of a span. -/
def slice? (source : Source) (span : Span) : Option (List Char) :=
  Text.slice? source.text span.start span.stop

/-- The place at which a span starts, as printed in a report. -/
def position? (source : Source) (span : Span) : Option String := do
  let line ← source.line? span.start
  let column ← source.column? span.start
  return source.origin.label ++ ":" ++ toString line ++ ":" ++ toString column

end Source

/-- A line of a source and the part of it to underline. -/
structure Excerpt where
  number : Nat
  line : List Char
  column : Nat
  width : Nat
  deriving DecidableEq, Repr

namespace Excerpt

/-- The number of carets under a span of `length` characters that starts at `column` of a line of
`lineLength` characters: at least one, and none past the end of the line otherwise. -/
def clip (length lineLength column : Nat) : Nat :=
  max 1 (min length (max (lineLength + 1 - column) 1))

/-- The excerpt as two lines: the numbered source line and the underline. -/
def render (palette : Palette) (excerpt : Excerpt) : String :=
  let gutter := toString excerpt.number
  let blank := String.ofList (List.replicate gutter.length ' ')
  let indent := String.ofList (List.replicate (excerpt.column - 1) ' ')
  let carets := String.ofList (List.replicate excerpt.width '^')
  palette.paint .blue (gutter ++ " |") ++ " " ++ String.ofList excerpt.line ++ "\n" ++
    palette.paint .blue (blank ++ " |") ++ " " ++ indent ++ palette.paint .red carets ++ "\n"

end Excerpt

namespace Source

/-- The excerpt that shows where a span starts. There is an outer result when the span lies on
boundaries of the text, and an inner one when its line exists: the end of a text that is empty or
ends in a newline is on no line. -/
def excerpt? (source : Source) (span : Span) : Option (Option Excerpt) := do
  let number ← source.line? span.start
  match (Text.lines source.text)[number - 1]? with
  | none => return none
  | some line =>
    let column ← source.column? span.start
    let marked ← source.slice? ⟨span.start, min span.stop source.endOffset⟩
    return some ⟨number, line, column, Excerpt.clip marked.length line.length column⟩

/-- The printed excerpt of a span: empty when its line does not exist. -/
def highlight? (palette : Palette) (source : Source) (span : Span) : Option String :=
  (source.excerpt? span).map fun excerpt? =>
    match excerpt? with
    | none => ""
    | some excerpt => excerpt.render palette

end Source

end SmallC
