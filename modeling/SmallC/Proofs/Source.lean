import SmallC.Proofs.Token.Coverage
import SmallC.Source

/-!
# Places in a source

Reports name a place by its line and its column, and show the line on which a span starts.  Lines and
columns grow with the offset, so no two places have the same name, and the name leads back to the
place.  What is underlined is the part of the span on the line that is shown.
-/

namespace SmallC

namespace Text

/-! ## Whole lines -/

/-- A text of lines that are all ended by a newline. -/
inductive WholeLines : List Char → Prop
  | nil : WholeLines []
  | cons {line rest : List Char} :
      '\n' ∉ line → WholeLines rest → WholeLines (line ++ '\n' :: rest)

/-- Every text is whole lines and the beginning of another line. -/
theorem exists_wholeLines (text : List Char) :
    ∃ above line, text = above ++ line ∧ WholeLines above ∧ '\n' ∉ line := by
  induction text with
  | nil => exact ⟨[], [], rfl, .nil, List.not_mem_nil⟩
  | cons c rest ih =>
    obtain ⟨above, line, rfl, whole, unbroken⟩ := ih
    by_cases isNewline : c = '\n'
    · subst isNewline
      have first : WholeLines ([] ++ '\n' :: above) := .cons List.not_mem_nil whole
      exact ⟨'\n' :: above, line, rfl, first, unbroken⟩
    · have joined {line : List Char} (unbroken : '\n' ∉ line) : '\n' ∉ c :: line :=
        List.not_mem_cons_of_ne_of_not_mem (Ne.symm isNewline) unbroken
      cases whole with
      | nil => exact ⟨[], c :: line, rfl, .nil, joined unbroken⟩
      | cons first later => exact ⟨_, line, rfl, .cons (joined first) later, unbroken⟩

theorem lastLine_after_newline (front rest : List Char) :
    lastLine (front ++ '\n' :: rest) = lastLine rest := by
  have stops : ('\n' :: front.reverse).takeWhile (· != '\n') = [] := rfl
  simp only [lastLine, List.reverse_append, List.reverse_cons, List.append_assoc,
    List.singleton_append, List.takeWhile_append, stops, List.append_nil]
  split
  · rename_i all
    rw [(List.takeWhile_prefix _).eq_of_length all]
  · rfl

variable {above line : List Char}

theorem WholeLines.lastLine_append (whole : WholeLines above) (unbroken : '\n' ∉ line) :
    lastLine (above ++ line) = line := by
  induction whole with
  | nil =>
    have all : ∀ c ∈ line.reverse, (c != '\n') = true := by
      intro c member
      rw [bne_iff_ne]
      exact ne_of_mem_of_not_mem (List.mem_reverse.mp member) unbroken
    rw [List.nil_append, lastLine, List.takeWhile_eq_self_iff.mpr all, List.reverse_reverse]
  | cons _ _ ih => rw [List.append_assoc, List.cons_append, lastLine_after_newline, ih]

/-- A text of whole lines is empty or ends in a newline. -/
theorem WholeLines.eq_newline (whole : WholeLines above) : ∀ c ∈ above.getLast?, c = '\n' := by
  induction whole with
  | nil => exact nofun
  | @cons line rest _ _ ih =>
    cases rest with
    | nil => simp
    | cons c rest => simpa using ih

/-- The rows of a text after whole lines are those after the rows of the lines. -/
theorem WholeLines.drop_splitOn (whole : WholeLines above) (rest : List Char) :
    ((above ++ rest).splitOn '\n').drop (above.count '\n') = rest.splitOn '\n' := by
  induction whole with
  | nil => rfl
  | @cons line later unbroken _ ih =>
    rw [List.count_append, List.count_eq_zero.mpr unbroken, List.count_cons_self, Nat.zero_add,
      List.append_assoc, List.cons_append, List.splitOn_append_cons_self_of_not_mem unbroken,
      List.drop_succ_cons, ih]

theorem splitOn_append (unbroken : '\n' ∉ line) (rest : List Char) :
    (line ++ rest).splitOn '\n' = (rest.splitOn '\n').modifyHead (line ++ ·) := by
  induction line with
  | nil => cases found : rest.splitOn '\n' <;> simp [found]
  | cons c line ih =>
    obtain ⟨other, unbroken⟩ := List.ne_and_not_mem_of_not_mem_cons unbroken
    rw [List.cons_append, List.splitOn_eq_splitOnP, List.splitOnP_cons_eq_if_modifyHead,
      if_neg (by simpa using Ne.symm other), ← List.splitOn_eq_splitOnP, ih unbroken,
      List.modifyHead_modifyHead]
    rfl

/-! ## Names of places -/

/-- A line and a column lead to the rest of a text.  Of the rows of the text, which newlines
separate, the rest is the one on that line without the characters before the column, and all later
ones.  The character there is the one of the row, or the newline after the row. -/
def LeadsTo (text : List Char) (number column : Nat) (after : List Char) : Prop :=
  ∃ row later, (text.splitOn '\n').drop (number - 1) = row :: later ∧ column - 1 ≤ row.length ∧
    after = ['\n'].intercalate (row.drop (column - 1) :: later) ∧
    after.head? = row[column - 1]?.or (later.head?.map fun _ => '\n')

theorem WholeLines.leadsTo (whole : WholeLines above) (unbroken : '\n' ∉ line)
    (after : List Char) :
    LeadsTo (above ++ (line ++ after)) (above.count '\n' + 1) (line.length + 1) after := by
  obtain ⟨first, later, rows_eq⟩ := List.exists_cons_of_ne_nil (List.splitOn_ne_nil '\n' after)
  have after_eq : ['\n'].intercalate (first :: later) = after :=
    rows_eq ▸ List.intercalate_splitOn '\n'
  refine ⟨line ++ first, later, ?_, ?_, ?_, ?_⟩
  · rw [Nat.add_sub_cancel, whole.drop_splitOn, splitOn_append unbroken, rows_eq]
    rfl
  · simp
  · simpa using after_eq.symm
  · rw [← after_eq]
    cases later with
    | nil | cons second later => cases first <;> simp

/-- A later place has a greater line, or the same line and a greater column. -/
theorem place_lt (before : List Char) {between : List Char} (nonempty : between ≠ []) :
    toLex (before.count '\n' + 1, (lastLine before).length + 1) <
      toLex ((before ++ between).count '\n' + 1, (lastLine (before ++ between)).length + 1) := by
  rw [Prod.Lex.toLex_lt_toLex, List.count_append]
  by_cases crosses : '\n' ∈ between
  · have := List.count_pos_iff.mpr crosses
    exact .inl (by dsimp only; omega)
  · obtain ⟨above, line, rfl, whole, unbroken⟩ := exists_wholeLines before
    have longer : '\n' ∉ line ++ between := List.not_mem_append unbroken crosses
    have := List.length_pos_of_ne_nil nonempty
    rw [List.append_assoc above, whole.lastLine_append longer, whole.lastLine_append unbroken,
      List.count_eq_zero.mpr crosses, List.length_append]
    exact .inr ⟨rfl, by dsimp only; omega⟩

/-- What lies between two places of a text. -/
theorem exists_text_between {before after front back : List Char}
    (same : before ++ after = front ++ back) (le : byteLength before ≤ byteLength front) :
    ∃ between, front = before ++ between ∧ after = between ++ back := by
  rcases List.append_eq_append_iff.mp same with found | ⟨excess, rfl, back_eq⟩
  · exact found
  · rw [byteLength_append] at le
    have empty : excess = [] := by
      by_contra nonempty
      have := byteLength_pos nonempty
      omega
    subst empty
    exact ⟨[], by simp, by simpa using back_eq.symm⟩

end Text

open Text

theorem Source.before?_append {source : Source} {before after : List Char}
    (text_eq : source.text = before ++ after) :
    source.before? (byteLength before) = some before := by
  have inside : byteLength before ≤ source.endOffset := by
    rw [Source.endOffset, text_eq, byteLength_append]
    exact Nat.le_add_right _ _
  rw [Source.before?, Nat.min_eq_left inside, text_eq, splitAt?_append]
  rfl

/-- The offsets of a source that do not lie inside of a character. -/
abbrev Source.Place (source : Source) :=
  {offset // Boundary source.text offset}

/-- The lines and columns of the boundaries of a text grow with the offset, so that no two places
have the same ones, and they lead to the text after the boundary. -/
theorem positions_identify_places (source : Source) :
    ∃ place : source.Place → ℕ ×ₗ ℕ,
      (∀ offset : source.Place, source.line? offset = some (ofLex (place offset)).1 ∧
        source.column? offset = some (ofLex (place offset)).2) ∧
      StrictMono place ∧ Function.Injective place ∧
      ∀ (offset : source.Place) before after, source.text = before ++ after →
        byteLength before = offset →
        LeadsTo source.text (ofLex (place offset)).1 (ofLex (place offset)).2 after := by
  have found (offset : source.Place) :
      ∃ before after, source.text = before ++ after ∧ byteLength before = offset :=
    offset.2
  choose before after text_eq offset_eq using found
  have increasing : StrictMono fun offset =>
      toLex ((before offset).count '\n' + 1, (lastLine (before offset)).length + 1) := by
    intro first second lt
    have same := (text_eq first).symm.trans (text_eq second)
    have less : byteLength (before first) < byteLength (before second) := by
      rw [offset_eq, offset_eq]
      exact lt
    obtain ⟨between, second_eq, -⟩ := exists_text_between same less.le
    dsimp only
    rw [second_eq] at less ⊢
    refine place_lt (before first) fun empty => ?_
    simp [empty] at less
  refine ⟨_, fun offset => ?_, increasing, increasing.injective, ?_⟩
  · have before_eq := Source.before?_append (text_eq offset)
    rw [offset_eq] at before_eq
    rw [Source.line?, Source.column?, before_eq]
    exact ⟨rfl, rfl⟩
  · intro offset front back split front_eq
    obtain ⟨rfl, -⟩ := append_inj_of_byteLength ((text_eq offset).symm.trans split)
      ((offset_eq offset).trans front_eq.symm)
    obtain ⟨above, line, before_eq, whole, unbroken⟩ := exists_wholeLines (before offset)
    rw [split, before_eq, whole.lastLine_append unbroken, List.count_append,
      List.count_eq_zero.mpr unbroken, List.append_assoc]
    exact whole.leadsTo unbroken back

/-! ## Excerpts -/

namespace Text

/-- What stands between a line and the lines below it.  A carriage return before the newline is not a
part of the line, and the last line may have no end. -/
def LineEnd (line ending below : List Char) : Prop :=
  ending = ['\n'] ∧ line.getLast? ≠ some '\r' ∨ ending = ['\r', '\n'] ∨
    ending = [] ∧ below = [] ∧ line ≠ []

/-- The first line of a text. -/
theorem exists_first_line {text : List Char} (nonempty : text ≠ []) :
    ∃ line ending below, (lines text).head? = some line ∧ text = line ++ (ending ++ below) ∧
      '\n' ∉ line ∧ LineEnd line ending below := by
  fun_induction lines text with
  | case1 => contradiction
  | case2 rest => exact ⟨[], ['\n'], rest, rfl, rfl, List.not_mem_nil, .inl ⟨rfl, nofun⟩⟩
  | case3 rest => exact ⟨[], ['\r', '\n'], rest, rfl, rfl, List.not_mem_nil, .inr (.inl rfl)⟩
  | case4 c rest notNewline _ lines_eq _ =>
    cases lines_eq_nil_iff.mp lines_eq
    exact ⟨[c], [], [], rfl, rfl, by simpa [eq_comm] using notNewline, .inr (.inr ⟨rfl, rfl, nofun⟩)⟩
  | case5 c rest notNewline notReturn first others lines_eq ih =>
    have rest_nonempty : rest ≠ [] := by
      rintro rfl
      cases lines_eq
    obtain ⟨line, ending, below, head_eq, rfl, unbroken, ends⟩ := ih rest_nonempty
    rw [lines_eq] at head_eq
    cases head_eq
    refine ⟨c :: first, ending, below, rfl, rfl,
      List.not_mem_cons_of_ne_of_not_mem (Ne.symm notNewline) unbroken, ?_⟩
    rcases ends with ⟨rfl, noReturn⟩ | rfl | ⟨rfl, rfl, -⟩
    · refine .inl ⟨rfl, ?_⟩
      cases first with
      | nil =>
        rintro ⟨⟩
        exact notReturn below rfl rfl
      | cons d first => simpa using noReturn
    · exact .inr (.inl rfl)
    · exact .inr (.inr ⟨rfl, rfl, List.cons_ne_nil c first⟩)

theorem exists_lines_eq_cons (unbroken : '\n' ∉ line) :
    ∃ shown, ∀ rest, lines (line ++ '\n' :: rest) = shown :: lines rest := by
  induction line with
  | nil => exact ⟨[], fun rest => by rw [List.nil_append, lines]⟩
  | cons c line ih =>
    obtain ⟨other, later⟩ := List.ne_and_not_mem_of_not_mem_cons unbroken
    by_cases ending : c = '\r' ∧ line = []
    · obtain ⟨rfl, rfl⟩ := ending
      exact ⟨[], fun rest => by rw [List.cons_append, List.nil_append, lines]⟩
    · obtain ⟨shown, shown_eq⟩ := ih later
      refine ⟨c :: shown, fun rest => ?_⟩
      rw [List.cons_append, lines, shown_eq]
      · exact Ne.symm other
      · rintro after rfl line_eq
        cases line with
        | nil => exact ending ⟨rfl, rfl⟩
        | cons d line =>
          cases line_eq
          exact later List.mem_cons_self

theorem WholeLines.getElem?_lines (whole : WholeLines above) (rest : List Char) :
    (lines (above ++ rest))[above.count '\n']? = (lines rest).head? := by
  induction whole with
  | nil => exact List.head?_eq_getElem?.symm
  | cons unbroken _ ih =>
    obtain ⟨shown, shown_eq⟩ := exists_lines_eq_cons unbroken
    rw [List.count_append, List.count_eq_zero.mpr unbroken, List.count_cons_self, Nat.zero_add,
      List.append_assoc, List.cons_append, shown_eq, List.getElem?_cons_succ, ih]

end Text

/-- How an excerpt shows a span of a text. -/
structure Excerpt.Shows (excerpt : Excerpt) (text : List Char) (span : Span)
    (above ending below left marked after under beyond : List Char) : Prop where
  /-- The line stands in the text below whole lines, which are counted. -/
  line : text = above ++ (excerpt.line ++ (ending ++ below)) ∧ WholeLines above ∧
    '\n' ∉ excerpt.line ∧ LineEnd excerpt.line ending below ∧
    excerpt.number = above.count '\n' + 1
  /-- The span starts before the newline of the line, after the characters left of the carets. -/
  start : text = above ++ (left ++ (marked ++ after)) ∧ '\n' ∉ left ∧
    byteLength (above ++ left) = span.start ∧ byteLength marked = span.stop - span.start ∧
    excerpt.column = left.length + 1
  /-- The span and the line go on together until one of them ends. -/
  carets : excerpt.line.drop left.length = under ++ beyond ∧ under <+: marked ∧
    (under = marked ∨ beyond = []) ∧ excerpt.width = max 1 under.length

/-- The part of a span on a line is what the carets are clipped to. -/
theorem Excerpt.exists_under {line left marked after rest : List Char}
    (same : line ++ rest = left ++ (marked ++ after)) :
    ∃ under beyond, line.drop left.length = under ++ beyond ∧ under <+: marked ∧
      (under = marked ∨ beyond = []) ∧
      clip marked.length line.length (left.length + 1) = max 1 under.length := by
  rcases List.append_eq_append_iff.mp same with ⟨more, rfl, -⟩ | ⟨right, rfl, right_eq⟩
  · -- The span starts at the end of the line or in its ending.
    refine ⟨[], [], by simp, List.nil_prefix, .inr rfl, ?_⟩
    simp only [clip, List.length_append, List.length_nil]
    omega
  · rw [List.drop_left]
    rcases List.append_eq_append_iff.mp right_eq with ⟨beyond, rfl, -⟩ | ⟨more, rfl, -⟩
    · refine ⟨marked, beyond, rfl, List.prefix_refl _, .inl rfl, ?_⟩
      simp only [clip, List.length_append]
      omega
    · refine ⟨right, [], by simp, List.prefix_append _ _, .inr rfl, ?_⟩
      simp only [clip, List.length_append]
      omega

/-- An excerpt as it is printed.  The two lines have margins of the same length, so the carets stand
under the characters of the line from the column on. -/
def Excerpt.Printed (palette : Palette) (excerpt : Excerpt) (printed : String) : Prop :=
  ∃ margin blank : String, margin.length = blank.length ∧ printed =
    palette.paint .blue margin ++ " " ++ String.ofList excerpt.line ++ "\n" ++
      palette.paint .blue blank ++ " " ++ String.ofList (List.replicate (excerpt.column - 1) ' ') ++
      palette.paint .red (String.ofList (List.replicate excerpt.width '^')) ++ "\n"

theorem Excerpt.printed_render (palette : Palette) (excerpt : Excerpt) :
    excerpt.Printed palette (excerpt.render palette) :=
  ⟨_, _, by simp, rfl⟩

theorem Excerpt.Printed.ne_empty {palette : Palette} {excerpt : Excerpt} {printed : String}
    (shown : excerpt.Printed palette printed) : printed ≠ "" := by
  obtain ⟨margin, blank, -, rfl⟩ := shown
  intro empty
  simpa using congrArg String.toList empty

/-- A span of a source in the lines of the text, and what is looked up about it. -/
structure Source.Around (source : Source) (span : Span) (above left marked after : List Char) :
    Prop where
  text_eq : source.text = above ++ (left ++ (marked ++ after))
  whole : WholeLines above
  unbroken : '\n' ∉ left
  start_eq : byteLength (above ++ left) = span.start
  stop_eq : byteLength marked = span.stop - span.start
  line : source.line? span.start = some (above.count '\n' + 1)
  column : source.column? span.start = some (left.length + 1)
  slice : source.slice? ⟨span.start, min span.stop source.endOffset⟩ = some marked

theorem Source.exists_around {source : Source} {span : Span} (lies : span.LiesIn source.text) :
    ∃ above left marked after, source.Around span above left marked after := by
  have stop_le : span.stop ≤ source.endOffset := lies.stop.le
  obtain ⟨ordered, ⟨before, rest, text_eq, start_eq⟩, ⟨upTo, after, upTo_eq, stop_eq⟩⟩ := lies
  obtain ⟨marked, rfl, rfl⟩ := exists_text_between (text_eq.symm.trans upTo_eq)
    (start_eq.trans_le (ordered.trans_eq stop_eq.symm))
  have before_eq := before?_append text_eq
  obtain ⟨above, left, rfl, whole, unbroken⟩ := exists_wholeLines before
  rw [start_eq] at before_eq
  have marked_eq : byteLength marked = span.stop - span.start := by
    rw [byteLength_append, start_eq] at stop_eq
    omega
  refine ⟨above, left, marked, after, by simpa using text_eq, whole, unbroken, start_eq, marked_eq,
    ?_, ?_, ?_⟩
  · rw [line?, before_eq, Option.map_some, List.count_append, List.count_eq_zero.mpr unbroken,
      Nat.add_zero]
  · rw [column?, before_eq, Option.map_some, whole.lastLine_append unbroken]
  · rw [Nat.min_eq_left stop_le, slice?, Text.slice?, if_pos ordered, ← marked_eq, text_eq,
      ← start_eq, splitAt?_append, Option.bind_some, splitAt?_append]
    rfl

/-- The excerpt of a span is the line on which the span starts, without its end, with carets under
the characters of the span on it, or one caret if there are none.  Nothing is printed only at the end
of a text that is empty or ends in a newline. -/
theorem underline_marks_span {source : Source} {span : Span} (lies : span.LiesIn source.text)
    (palette : Palette) :
    ∃ printed, source.highlight? palette span = some printed ∧
      (printed = "" ↔ span.start = source.endOffset ∧ ∀ c ∈ source.text.getLast?, c = '\n') ∧
      (printed ≠ "" → ∃ excerpt : Excerpt, ∃ above ending below left marked after under beyond,
        excerpt.Shows source.text span above ending below left marked after under beyond ∧
          excerpt.Printed palette printed) := by
  obtain ⟨above, left, marked, after, text_eq, whole, unbroken, start_eq, stop_eq, line_eq,
    column_eq, slice_eq⟩ := Source.exists_around lies
  have shown_eq := whole.getElem?_lines (left ++ (marked ++ after))
  rw [← text_eq] at shown_eq
  simp only [Source.highlight?, Source.excerpt?, line_eq, column_eq, slice_eq,
    Nat.add_sub_cancel, shown_eq, Option.bind_eq_bind, Option.bind_some]
  by_cases empty : left ++ (marked ++ after) = []
  · -- The span starts after the last whole line, and nothing follows.
    rw [empty, List.append_nil] at text_eq
    rw [empty]
    refine ⟨"", rfl, ⟨fun _ => ⟨?_, text_eq ▸ whole.eq_newline⟩, fun _ => rfl⟩, absurd rfl⟩
    rw [← start_eq, Source.endOffset, text_eq, (List.append_eq_nil_iff.mp empty).1, List.append_nil]
  · obtain ⟨line, ending, below, head_eq, rest_eq, unbrokenLine, ends⟩ := exists_first_line empty
    obtain ⟨under, beyond, carets⟩ := Excerpt.exists_under rest_eq.symm
    rw [head_eq]
    have printed := Excerpt.printed_render palette ⟨above.count '\n' + 1, line, left.length + 1,
      Excerpt.clip marked.length line.length (left.length + 1)⟩
    refine ⟨_, rfl, ⟨fun nothing => absurd nothing printed.ne_empty, ?_⟩, fun _ => ?_⟩
    · rintro ⟨start_end, last_eq⟩
      have nothing : marked ++ after = [] := by
        by_contra nonempty
        have := byteLength_pos nonempty
        rw [Source.endOffset, text_eq, ← List.append_assoc, byteLength_append, start_eq] at start_end
        omega
      rw [nothing, List.append_nil] at text_eq empty
      rw [text_eq, List.getLast?_append_of_ne_nil _ empty] at last_eq
      have last := last_eq _ (List.getLast?_eq_some_getLast empty)
      exact absurd (last ▸ List.getLast_mem empty) unbroken
    · refine ⟨_, above, ending, below, left, marked, after, under, beyond, ⟨?_, ?_, carets⟩, printed⟩
      · exact ⟨rest_eq ▸ text_eq, whole, unbrokenLine, ends, rfl⟩
      · exact ⟨text_eq, unbroken, start_eq, stop_eq, rfl⟩

/-- A span that starts with a character of two bytes and goes on in the next line, after a line end
of two characters. -/
theorem underline_marks_span_over_line_end :
    (Source.ofText "x\né é\r\ny").highlight? .plain ⟨2, 10⟩ = some "2 | é é\n  | ^^^\n" ∧
    ∃ excerpt : Excerpt, ∃ above ending below left marked after under beyond,
      excerpt.Shows "x\né é\r\ny".toList ⟨2, 10⟩ above ending below left marked after under
          beyond ∧
        excerpt.Printed .plain "2 | é é\n  | ^^^\n" := by
  have lies : Span.LiesIn (Source.ofText "x\né é\r\ny").text ⟨2, 10⟩ :=
    ⟨by decide, ⟨"x\n".toList, "é é\r\ny".toList, by decide, by decide⟩, .end _⟩
  have printed_eq :
      (Source.ofText "x\né é\r\ny").highlight? .plain ⟨2, 10⟩ = some "2 | é é\n  | ^^^\n" := by
    cbv
  obtain ⟨printed, found, -, shown⟩ := underline_marks_span lies .plain
  rw [printed_eq] at found
  cases found
  exact ⟨printed_eq, shown (by decide)⟩

end SmallC
