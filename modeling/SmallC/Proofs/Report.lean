import SmallC.Proofs.Lowering.Complete
import SmallC.Proofs.Parse.Places
import SmallC.Proofs.Semantic.Places
import SmallC.Proofs.Source

/-!
# Reports can be printed

A report about a span looks up the line and the column at which the span starts and cuts the span
out of the text.  Nothing of this fails for a span that lies in the text, and every span that a
compilation tells the user about does.
-/

namespace SmallC

open Text

/-! ## Places of a source -/

/-- What printing a place of a source relies on and gives: the span lies in the text, its position
can be named, and the line on which it starts, if there is one, is shown with a part of it
underlined.  Lines and columns count from one, and the underline is as long as the bounds that it is
clipped to allow. -/
structure Source.Printable (source : Source) (span : Span) : Prop where
  lies : span.LiesIn source.text
  stop_le : span.stop ≤ source.endOffset
  position : (source.position? span).isSome
  excerpt : ∃ excerpt, source.excerpt? span = some excerpt ∧ ∀ shown ∈ excerpt,
    1 ≤ shown.number ∧ 1 ≤ shown.column ∧ 1 ≤ shown.width ∧
      shown.width ≤ max (shown.line.length + 1 - shown.column) 1

theorem Excerpt.clip_bounds (length lineLength column : Nat) :
    1 ≤ clip length lineLength column ∧
      clip length lineLength column ≤ max (lineLength + 1 - column) 1 := by
  unfold clip
  omega

variable {source : Source} {span : Span}

/-- Every span that lies in the text of a source can be printed. -/
theorem Span.LiesIn.printable (lies : span.LiesIn source.text) : source.Printable span := by
  have stop_le : span.stop ≤ source.endOffset := lies.stop.le
  obtain ⟨above, left, marked, after, around⟩ := Source.exists_around lies
  refine ⟨lies, stop_le, ?position, ?excerpt⟩
  case position => simp [Source.position?, around.line, around.column]
  case excerpt =>
    simp only [Source.excerpt?, around.line, around.column, around.slice, Option.bind_eq_bind,
      Option.bind_some]
    split
    · exact ⟨none, rfl, by rintro _ ⟨⟩⟩
    · rename_i line _
      refine ⟨_, rfl, ?_⟩
      rintro _ ⟨⟩
      exact ⟨Nat.le_add_left _ _, Nat.le_add_left _ _, Excerpt.clip_bounds _ _ _⟩

theorem Source.Printable.isSome_highlight? (printable : source.Printable span) (palette : Palette) :
    (source.highlight? palette span).isSome := by
  obtain ⟨excerpt, found, -⟩ := printable.excerpt
  simp [Source.highlight?, found]

theorem Source.Printable.isSome_located? (printable : source.Printable span) (palette : Palette)
    (severity : Severity) (message : String) :
    (Report.located? palette severity source message span).isSome := by
  obtain ⟨position, position_eq⟩ := Option.isSome_iff_exists.mp printable.position
  obtain ⟨excerpt, excerpt_eq⟩ := Option.isSome_iff_exists.mp (printable.isSome_highlight? palette)
  simp [Report.located?, position_eq, excerpt_eq]

/-! ## Reports of a compilation -/

/-- The place that an error is about.  A fault is about no place of the source. -/
def CompileError.span? : CompileError → Option Span
  | .unparsed error => some error.span
  | .unchecked error => some error.span
  | .internal _ => none

/-- The report of an error about a printable place exists. -/
theorem CompileError.isSome_report? {error : CompileError} (located : error.span? = some span)
    (printable : source.Printable span) (palette : Palette) :
    (error.report? palette source).isSome := by
  cases error with
  | unparsed error | unchecked error =>
    cases located
    exact printable.isSome_located? palette _ _
  | internal fault => cases located

/-- The reports of warnings about printable places exist. -/
theorem Report.isSome_ofWarnings? {warnings : List Warning}
    (printable : ∀ warning ∈ warnings, source.Printable warning.span) (palette : Palette) :
    (ofWarnings? palette source warnings).isSome := by
  induction warnings with
  | nil => rfl
  | cons first others ih =>
    rw [List.forall_mem_cons] at printable
    obtain ⟨report, report_eq⟩ := Option.isSome_iff_exists.mp
      (printable.1.isSome_located? palette .warning first.cause.message)
    obtain ⟨reports, reports_eq⟩ := Option.isSome_iff_exists.mp (ih printable.2)
    simp [ofWarnings?, ofWarning?, report_eq, reports_eq]

theorem outcome_compile_of_unparsed {error : SyntaxError}
    (parsed : parseProgram source.text = .error error) :
    (compile source).outcome = .error (.unparsed error) := by
  simp only [compile, parsed, bind, Logged.andThen, Logged.entry, Logged.entries, Logged.quiet,
    Except.mapError]

theorem outcome_compile_of_unchecked {program : Program} {error : SemanticError}
    (parsed : parseProgram source.text = .ok program) (checked : program.check = .error error) :
    (compile source).outcome = .error (.unchecked error) := by
  simp only [compile, parsed, checked, bind, Logged.andThen, Logged.entry, Logged.entries,
    Logged.quiet, Except.mapError]

/-- Every place that a compilation tells the user about, be it that of an error or of a warning,
can be printed, and so can the reports about them. -/
theorem diagnostics_printable (source : Source) (palette : Palette) :
    match (compile source).outcome with
    | .error error => ∀ span ∈ error.span?,
        source.Printable span ∧ (error.report? palette source).isSome
    | .ok compilation => (∀ warning ∈ compilation.warnings, source.Printable warning.span) ∧
        (Report.ofWarnings? palette source compilation.warnings).isSome := by
  have parsing := parseProgram_places source.text
  cases parsed : parseProgram source.text with
  | error error =>
    rw [parsed] at parsing
    rw [outcome_compile_of_unparsed parsed]
    rintro span ⟨⟩
    exact ⟨parsing.printable, CompileError.isSome_report? rfl parsing.printable palette⟩
  | ok program =>
    rw [parsed] at parsing
    have checking := Program.check_places parsing
    cases checked : program.check with
    | error error =>
      rw [checked] at checking
      rw [outcome_compile_of_unchecked parsed checked]
      rintro span ⟨⟩
      exact ⟨checking.printable, CompileError.isSome_report? rfl checking.printable palette⟩
    | ok warnings =>
      rw [checked] at checking
      have printable (warning : Warning) (member : warning ∈ warnings) :=
        (checking warning member).printable
      rw [outcome_compile parsed checked]
      cases program.lower with
      | error fault => exact nofun
      | ok graphs => exact ⟨printable, Report.isSome_ofWarnings? printable palette⟩

/-- A literal that is not closed on its line, after characters of two bytes and on the second of two
lines that end in a carriage return and a newline. -/
def unclosedLiteralText : String :=
  "int main() \x7b\r\n  return 'é' + 'ß;\r\n\x7d"

theorem diagnostics_printable_unclosed :
    ∃ error, (compile (Source.ofText unclosedLiteralText)).outcome = .error error ∧
      error.span? = some ⟨30, 36⟩ ∧
      (Source.ofText unclosedLiteralText).Printable ⟨30, 36⟩ := by
  have parsed : parseProgram (Source.ofText unclosedLiteralText).text =
      .error ⟨.lexical .unclosedCharLiteral, ⟨30, 36⟩⟩ := by
    cbv
  have compiled := outcome_compile_of_unparsed parsed
  have printable := diagnostics_printable (Source.ofText unclosedLiteralText) .plain
  rw [compiled] at printable
  exact ⟨_, compiled, rfl, (printable _ rfl).1⟩

end SmallC
