import SmallC.Semantic.Error
import SmallC.Source

/-!
# Reports

What the user reads about a program: a heading, a message, the place it is about, and the source
line there with the place underlined. A report exists exactly when its place lies on character
boundaries of the source.
-/

namespace SmallC

/-- How grave a report is. -/
inductive Severity where
  | warning
  | error
  deriving DecidableEq, Repr

/-- The heading of a report. -/
def Severity.heading (palette : Palette) : Severity → String
  | .warning => palette.paint .boldYellow "warning:"
  | .error => palette.paint .boldRed "error:"

namespace Report

/-- A report without a place. -/
def plain (palette : Palette) (severity : Severity) (message : String) : String :=
  severity.heading palette ++ " " ++ message ++ "\n"

/-- A report about a place of a source. -/
def located? (palette : Palette) (severity : Severity) (source : Source) (message : String)
    (span : Span) : Option String := do
  let position ← source.position? span
  let excerpt ← source.highlight? palette span
  return plain palette severity (message ++ " (" ++ position ++ ")") ++ excerpt

/-- The report of a warning. -/
def ofWarning? (palette : Palette) (source : Source) (warning : Warning) : Option String :=
  located? palette .warning source warning.cause.message warning.span

/-- The reports of warnings, in order. -/
def ofWarnings? (palette : Palette) (source : Source) : List Warning → Option String
  | [] => some ""
  | first :: others => do
      let report ← ofWarning? palette source first
      let reports ← ofWarnings? palette source others
      return report ++ reports

end Report

end SmallC
