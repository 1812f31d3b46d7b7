import SmallC.Proofs.Emission.ReadBack

/-!
# Comments

With comments, every instruction of a graph is listed on a line above its code.  These lines can be
told from all others by how they start, so the code can be had back from the text: without its
comments it is the text that is emitted when no comments are wanted.  All that this needs of the
function that removes colours from listings is that it removes nothing else.
-/

namespace SmallC

/-! ## Comments of a text -/

namespace Text

/-- What a comment starts with. -/
def commentMark : String :=
  "    # "

/-- Whether a line is a comment. -/
def isComment (line : List Char) : Bool :=
  commentMark.toList.isPrefixOf line

/-- The comments of a text, in order. -/
def commentLines (text : String) : List String :=
  ((text.toList.splitOn '\n').filter isComment).map String.ofList

/-- A text without its comments. -/
def withoutComments (text : String) : String :=
  String.ofList (['\n'].intercalate ((text.toList.splitOn '\n').filter fun line => !isComment line))

end Text

namespace Assembly

open SmallC.Graph

variable {defined : String → Bool} {options : Options} {palette : Palette} {graph : Graph}
  {graphs : List Graph} {lines : List Line}

/-- Whether a line is a comment. -/
def Line.isComment : Line → Bool
  | .comment _ => true
  | _ => false

/-- A line is a comment exactly when its text starts like one. -/
theorem isComment_text {line : Line} (readable : line.Readable) :
    Text.isComment line.text.toList = line.isComment := by
  have indented {content : String} (noHash : content.toList.head? ≠ some '#') :
      Text.isComment ("    " ++ content).toList = false := by
    rw [String.toList_append]
    cases content_eq : content.toList with
    | nil => rfl
    | cons c rest =>
      have different : ('#' == c) = false := by
        rw [beq_eq_false_iff_ne]
        rintro rfl
        exact noHash (by rw [content_eq]; rfl)
      simp [Text.isComment, Text.commentMark, List.isPrefixOf, different]
  cases line with
  | blank => rfl
  | verbatim content =>
    refine indented ?_
    rw [readable.directive content rfl]
    decide
  | label name =>
    obtain ⟨first, others, list_eq, -, chars⟩ := exists_of_isSymbol (readable.label name rfl)
    have noBlank : (' ' == first) = false := by
      rw [beq_eq_false_iff_ne]
      rintro rfl
      exact absurd (chars ' ' (list_eq ▸ List.mem_cons_self)) (by decide)
    simp [Line.text, list_eq, Text.isComment, Text.commentMark, List.isPrefixOf, noBlank,
      Line.isComment]
  | comment content =>
    rw [Line.text, String.toList_append]
    exact List.isPrefixOf_iff_prefix.mpr (List.prefix_append _ _)
  | instr content =>
    obtain ⟨-, -, noHash⟩ := mnemonic_plain content
    refine indented ?_
    unfold Instr.text
    split
    · exact noHash
    · rw [String.toList_append, String.toList_append, List.append_assoc]
      cases mnemonic_eq : content.mnemonic.toList with
      | nil => simp
      | cons c rest => rwa [mnemonic_eq] at noHash

section Render

variable (oneLine : ∀ line ∈ lines, OneLine line.text) (readable : ∀ line ∈ lines, line.Readable)

include oneLine readable

theorem commentLines_render :
    Text.commentLines (Line.render lines) = (lines.filter Line.isComment).map Line.text := by
  have same : lines.filter (Text.isComment ∘ fun line => line.text.toList) =
      lines.filter Line.isComment :=
    List.filter_congr fun line member => isComment_text (readable line member)
  have noComment : Text.isComment [] = false := rfl
  rw [Text.commentLines, splitOn_render oneLine, List.filter_append, List.filter_map, same]
  simp [noComment]

theorem withoutComments_render :
    Text.withoutComments (Line.render lines) =
      Line.render (lines.filter fun line => !line.isComment) := by
  have same : lines.filter ((fun line => !Text.isComment line) ∘ fun line => line.text.toList) =
      lines.filter fun line => !line.isComment := by
    refine List.filter_congr fun line member => ?_
    rw [Function.comp_apply, isComment_text (readable line member)]
  have keptOneLine : ∀ line ∈ lines.filter (fun line => !line.isComment), OneLine line.text :=
    fun line member => oneLine line (List.mem_filter.mp member).1
  have noComment : [([] : List Char)].filter (fun line => !Text.isComment line) = [[]] := rfl
  rw [Text.withoutComments, splitOn_render oneLine, List.filter_append, List.filter_map, same,
    noComment, ← splitOn_render keptOneLine, List.intercalate_splitOn, String.ofList_toList]

end Render

/-! ## Comments and code -/

/-- Whether a comment is the plain listing of an instruction of a graph. -/
def Lists (entry : Graph × Instruction) (line : Line) : Prop :=
  ∃ listing, entry.1.showInstruction .plain entry.2 = .ok listing ∧ line = .comment listing

/-- Lines that are some code with a comment for each of some instructions, in order. -/
structure Commented (entries : List (Graph × Instruction)) (code lines : List Line) : Prop where
  comments : List.Forall₂ Lists entries (lines.filter Line.isComment)
  code_eq : (lines.filter fun line => !line.isComment) = code

namespace Commented

variable {entries more : List (Graph × Instruction)} {code moreCode moreLines : List Line}

theorem append (commented : Commented entries code lines)
    (others : Commented more moreCode moreLines) :
    Commented (entries ++ more) (code ++ moreCode) (lines ++ moreLines) where
  comments := by
    rw [List.filter_append]
    exact List.rel_append commented.comments others.comments
  code_eq := by rw [List.filter_append, commented.code_eq, others.code_eq]

/-- Lines without comments. -/
theorem ofCode (plain : ∀ line ∈ lines, line.isComment = false) : Commented [] lines lines where
  comments := by
    rw [List.filter_eq_nil_iff.mpr fun line member => by simp [plain line member]]
    exact .nil
  code_eq := List.filter_eq_self.mpr fun line member => by simp [plain line member]

theorem instrs (code : List Instr) : Commented [] (code.map .instr) (code.map .instr) :=
  ofCode <| List.forall_mem_map.mpr fun _ _ => rfl

end Commented

variable {instructions : List Instruction}

/-- The comments above the code of instructions. -/
theorem commented_emitInstructions (legible : graph.Legible)
    (functions : ∀ instruction ∈ instructions, ∀ function,
      .function function ∈ instruction.operands → Text.Visible function) {code : List Line}
    (emitted : emitInstructions ⟨true, palette⟩ graph instructions = .ok lines)
    (plain : emitInstructions ⟨false, palette⟩ graph instructions = .ok code) :
    Commented (instructions.map (graph, ·)) code lines := by
  induction instructions generalizing lines code with
  | nil =>
    cases emitted
    cases plain
    exact .ofCode nofun
  | cons first others ih =>
    obtain ⟨listing, instrs, rest, shown, instrsEmitted, restEmitted, rfl⟩ :=
      emitInstructions_cons_eq_ok_iff.mp emitted
    obtain ⟨_, _, plainRest, -, sameInstrs, plainRestEmitted, rfl⟩ :=
      emitInstructions_cons_eq_ok_iff.mp plain
    cases instrsEmitted.symm.trans sameInstrs
    rw [List.forall_mem_cons] at functions
    have listed : Commented [(graph, first)] [] (commentLine ⟨true, palette⟩ listing) :=
      ⟨.cons ⟨_, (showInstruction_plain Text.removesColours_stripEscapes legible functions.1 shown).1, rfl⟩ .nil, rfl⟩
    exact (listed.append (.instrs instrs)).append (ih functions.2 restEmitted plainRestEmitted)

/-- The instructions of blocks, in order. -/
def instructionsOf (graph : Graph) (ids : List BlockId) : List (Graph × Instruction) :=
  (ids.filterMap graph.blocks.get?).flatMap fun block => block.instructions.map (graph, ·)

theorem commented_emitBlocks (legible : graph.Legible) {ids : List BlockId} {code : List Line}
    (emitted : emitBlocks ⟨true, palette⟩ graph ids = .ok lines)
    (plain : emitBlocks ⟨false, palette⟩ graph ids = .ok code) :
    Commented (instructionsOf graph ids) code lines := by
  induction ids generalizing lines code with
  | nil =>
    cases emitted
    cases plain
    exact .ofCode nofun
  | cons first others ih =>
    obtain ⟨block, inside, exit, rest, found, blockLines, restEmitted, rfl⟩ :=
      emitBlocks_cons_eq_ok_iff.mp emitted
    obtain ⟨_, plainInside, _, plainRest, sameFound, plainLines, plainRestEmitted, rfl⟩ :=
      emitBlocks_cons_eq_ok_iff.mp plain
    cases found.symm.trans sameFound
    cases blockLines.exit_eq.symm.trans plainLines.exit_eq
    have entries_eq : instructionsOf graph (first :: others) =
        block.instructions.map (graph, ·) ++ instructionsOf graph others := by
      simp [instructionsOf, found]
    have label : Commented [] [.label block.label] [.label block.label] :=
      .ofCode <| List.forall_mem_singleton.mpr rfl
    have body := commented_emitInstructions legible (legible.functions first block found)
      blockLines.code_eq plainLines.code_eq
    have whole := ((label.append body).append (.instrs exit)).append
      (ih restEmitted plainRestEmitted)
    rw [List.nil_append, List.append_nil, ← entries_eq] at whole
    exact whole

theorem commented_emitFunction (finished : graph.Finished defined) {code : List Line}
    (emitted : emitFunction ⟨true, palette⟩ graph = .ok lines)
    (plain : emitFunction ⟨false, palette⟩ graph = .ok code) :
    Commented (instructionsOf graph graph.order) code lines := by
  obtain ⟨blocks, blocksEmitted, rfl⟩ := (emitFunction_eq_ok_iff finished.formed).mp emitted
  obtain ⟨plainBlocks, plainEmitted, rfl⟩ := (emitFunction_eq_ok_iff finished.formed).mp plain
  have header : Commented [] (functionHeader graph.name) (functionHeader graph.name) :=
    .ofCode <| by simp [functionHeader, Line.isComment]
  exact (header.append (.instrs _)).append
    (commented_emitBlocks (finished.named.legible finished.formed) blocksEmitted plainEmitted)

/-! ## Programs -/

/-- The instructions of graphs in the order in which they are emitted. -/
def emittedInstructions (graphs : List Graph) : List (Graph × Instruction) :=
  graphs.flatMap fun graph => instructionsOf graph graph.order

theorem commented_emitFunctions (finished : ∀ graph ∈ graphs, graph.Finished defined)
    {code : List Line} (emitted : emitFunctions ⟨true, palette⟩ graphs = .ok lines)
    (plain : emitFunctions ⟨false, palette⟩ graphs = .ok code) :
    Commented (emittedInstructions graphs) code lines := by
  induction graphs generalizing lines code with
  | nil =>
    cases emitted
    cases plain
    exact .ofCode nofun
  | cons first others ih =>
    simp only [emitFunctions, bind_eq_ok_iff, pure_eq_ok, Except.ok.injEq] at emitted plain
    obtain ⟨function, firstEmitted, rest, restEmitted, rfl⟩ := emitted
    obtain ⟨plainFunction, plainEmitted, plainRest, plainRestEmitted, rfl⟩ := plain
    rw [List.forall_mem_cons] at finished
    have blank : Commented [] [.blank] [.blank] := .ofCode <| List.forall_mem_singleton.mpr rfl
    exact (commented_emitFunction finished.1 firstEmitted plainEmitted).append
      (blank.append (ih finished.2 restEmitted plainRestEmitted))

theorem emitProgram_eq_ok_iff :
    emitProgram options graphs = .ok lines ↔
      ∃ functions, emitFunctions options graphs = .ok functions ∧
        lines = fileHeader ++ (if graphs.isEmpty then [.blank] else functions) ++ fileFooter := by
  have isEmpty_eq {functions : List Line} (emitted : emitFunctions options graphs = .ok functions) :
      functions.isEmpty = graphs.isEmpty := by
    cases graphs with
    | nil => cases emitted; rfl
    | cons first others =>
      simp only [emitFunctions, bind_eq_ok_iff, pure_eq_ok, Except.ok.injEq] at emitted
      obtain ⟨function, -, rest, -, rfl⟩ := emitted
      simp
  simp only [emitProgram, bind_eq_ok_iff, pure_eq_ok, Except.ok.injEq]
  constructor
  · rintro ⟨functions, emitted, rfl⟩
    exact ⟨functions, emitted, by rw [isEmpty_eq emitted]⟩
  · rintro ⟨functions, emitted, rfl⟩
    exact ⟨functions, emitted, by rw [isEmpty_eq emitted]⟩

theorem commented_emitProgram (finished : ∀ graph ∈ graphs, graph.Finished defined)
    {code : List Line} (emitted : emitProgram ⟨true, palette⟩ graphs = .ok lines)
    (plain : emitProgram ⟨false, palette⟩ graphs = .ok code) :
    Commented (emittedInstructions graphs) code lines := by
  obtain ⟨functions, functionsEmitted, rfl⟩ := emitProgram_eq_ok_iff.mp emitted
  obtain ⟨plainFunctions, plainEmitted, rfl⟩ := emitProgram_eq_ok_iff.mp plain
  have header : Commented [] fileHeader fileHeader := .ofCode <| by decide
  have footer : Commented [] fileFooter fileFooter := .ofCode <| by decide
  have body : Commented (emittedInstructions graphs)
      (if graphs.isEmpty then [.blank] else plainFunctions)
      (if graphs.isEmpty then [.blank] else functions) := by
    cases graphs with
    | nil => exact .ofCode <| List.forall_mem_singleton.mpr rfl
    | cons first others => exact commented_emitFunctions finished functionsEmitted plainEmitted
  have whole := (header.append body).append footer
  rwa [List.nil_append, List.append_nil] at whole

/-- The lines of a program are those of its functions and those around them.  Without functions there
is an empty line in their place. -/
theorem mem_emitProgram (emitted : emitProgram options graphs = .ok lines) :
    ∃ functions, List.Forall₂ (fun graph function => emitFunction options graph = .ok function)
        graphs functions ∧ ∀ line ∈ lines, line ∈ programLines functions ∨ line = .blank := by
  obtain ⟨_, functionsEmitted, rfl⟩ := emitProgram_eq_ok_iff.mp emitted
  obtain ⟨functions, all, rfl⟩ := emitFunctions_eq_ok_iff.mp functionsEmitted
  refine ⟨functions, all, fun line member => ?_⟩
  split at member
  · have inside : line ∈ fileHeader ∨ line = .blank ∨ line ∈ fileFooter := by
      simpa [or_assoc] using member
    rcases inside with inHeader | isBlank | inFooter
    · exact .inl (mem_programLines.mpr (.inl inHeader))
    · exact .inr isBlank
    · exact .inl (mem_programLines.mpr (.inr (.inr inFooter)))
  · exact .inl member

/-! ## Ways to remove colours

How colours are removed makes no difference to what is emitted, as long as nothing else is. -/

section Strip

variable {strip : String → String} (removes : Text.RemovesColours strip)

include removes

theorem emitInstructions_strip (legible : graph.Legible)
    (functions : ∀ instruction ∈ instructions, ∀ function,
      .function function ∈ instruction.operands → Text.Visible function) :
    emitInstructions options graph instructions strip =
      emitInstructions options graph instructions := by
  induction instructions with
  | nil => rfl
  | cons first others ih =>
    rw [List.forall_mem_cons] at functions
    rw [emitInstructions, emitInstructions, ih functions.2]
    cases shown : graph.showInstruction options.palette first with
    | error fault => rfl
    | ok listing =>
      obtain ⟨plain, -, coloured⟩ := exists_showInstruction_plain legible functions.1 shown
      have same : strip listing = Text.stripEscapes Text.isPrinting listing :=
        (removes listing plain coloured).trans
          (Text.removesColours_stripEscapes listing plain coloured).symm
      simp only [ok_bind, commentLine, same]

theorem emitBlocks_strip (legible : graph.Legible) (ids : List BlockId) :
    emitBlocks options graph ids strip = emitBlocks options graph ids := by
  induction ids with
  | nil => rfl
  | cons first others ih =>
    rw [emitBlocks, emitBlocks, ih]
    cases found : graph.block first with
    | error fault => rfl
    | ok block =>
      simp only [ok_bind, emitInstructions_strip removes legible
        (legible.functions first block (block_eq_ok_iff.mp found))]

theorem emitFunctions_strip (finished : ∀ graph ∈ graphs, graph.Finished defined) :
    emitFunctions options graphs strip = emitFunctions options graphs := by
  induction graphs with
  | nil => rfl
  | cons first others ih =>
    rw [List.forall_mem_cons] at finished
    have legible := finished.1.named.legible finished.1.formed
    simp only [emitFunctions, emitFunction, emitBlocks_strip removes legible, ih finished.2]

/-- The assembly of finished graphs does not depend on how colours are removed. -/
theorem assembly_strip {compilation : Compilation}
    (finished : ∀ graph ∈ compilation.graphs, graph.Finished defined) (target : Target) :
    compilation.assembly target options strip = compilation.assembly target options := by
  simp only [Compilation.assembly, emitProgram, emitFunctions_strip removes finished]

end Strip

end Assembly

/-! ## Main statement -/

/-- Comments do not change the code, if only the colours are removed from the listings that they
show.  The assembly of a parsed and lowered program with comments is, without its comments, the
assembly without comments; and its comments are the plain listings of the instructions of the graphs,
one for each, in the order of emission. -/
theorem comments_leave_code {strip : String → String} (removes : Text.RemovesColours strip)
    {text : List Char} {program : Program} {compilation : Compilation}
    (parsed : parseProgram text = .ok program) (lowered : program.lower = .ok compilation.graphs)
    (target : Target) (palette : Palette) :
    ∃ commented code,
      (compilation.assembly target ⟨true, palette⟩ strip).outcome = .ok commented ∧
        (compilation.assembly target ⟨false, palette⟩ strip).outcome = .ok code ∧
          Text.withoutComments commented = code ∧
            List.Forall₂
              (fun entry line => ∃ listing,
                entry.1.showInstruction .plain entry.2 = .ok listing ∧ line = "    # " ++ listing)
              (Assembly.emittedInstructions compilation.graphs) (Text.commentLines commented) := by
  obtain ⟨-, finished⟩ := finished_of_lower (Program.wellFormed_of_parse parsed) lowered
  rw [Assembly.assembly_strip removes finished, Assembly.assembly_strip removes finished]
  have formed : ∀ graph ∈ compilation.graphs, graph.WellFormed :=
    fun graph member => (finished graph member).formed
  obtain ⟨lines, emitted, outcome_eq⟩ := exists_lines_outcome_assembly target ⟨true, palette⟩ formed
  obtain ⟨plain, plainEmitted, plainOutcome_eq⟩ :=
    exists_lines_outcome_assembly target ⟨false, palette⟩ formed
  obtain ⟨functions, each, inProgram⟩ := Assembly.mem_emitProgram emitted
  have oneLine : ∀ line ∈ lines, OneLine line.text := by
    intro line member
    rcases inProgram line member with inLines | rfl
    · exact Assembly.oneLine_programLines finished each line inLines
    · decide
  have readable : ∀ line ∈ lines, line.Readable := by
    intro line member
    rcases inProgram line member with inLines | rfl
    · exact Assembly.readable_programLines finished each line inLines
    · exact Assembly.readable_blank
  have commented := Assembly.commented_emitProgram finished emitted plainEmitted
  refine ⟨_, _, outcome_eq, plainOutcome_eq, ?_, ?_⟩
  · rw [Assembly.withoutComments_render oneLine readable, commented.code_eq]
  · rw [Assembly.commentLines_render oneLine readable, List.forall₂_map_right_iff]
    refine commented.comments.imp ?_
    rintro entry _ ⟨listing, shown, rfl⟩
    exact ⟨listing, shown, rfl⟩

/-- A call and a loop, with the listings in colour before they become comments, and colours removed
as a terminal does it. -/
theorem comments_leave_code_coloured :
    Text.RemovesColours (Text.stripEscapes Text.isPrinting) ∧ ∃ program graphs commented code,
      parseProgram "int main(int a)\x7bwhile(a)a=f(a,1);return a;\x7d".toList = .ok program ∧
        program.lower = .ok graphs ∧
          ((⟨graphs, []⟩ : Compilation).assembly .x86LinuxGnu ⟨true, .ansi⟩).outcome =
              .ok commented ∧
            ((⟨graphs, []⟩ : Compilation).assembly .x86LinuxGnu ⟨false, .ansi⟩).outcome =
                .ok code ∧
              Text.withoutComments commented = code ∧ (Text.commentLines commented).length = 4 := by
  have evaluated : (parseProgram
      "int main(int a)\x7bwhile(a)a=f(a,1);return a;\x7d".toList).toOption.any
        (fun program => program.lower.toOption.any fun graphs =>
          (Assembly.emittedInstructions graphs).length == 4) = true := by
    cbv
  rcases exists_ok_of_any evaluated with ⟨program, parsed, passes⟩
  rcases exists_ok_of_any passes with ⟨graphs, lowered, four⟩
  have gives : program.lower = .ok (⟨graphs, []⟩ : Compilation).graphs := lowered
  obtain ⟨commented, code, emitted, plain, without, each⟩ :=
    comments_leave_code Text.removesColours_stripEscapes parsed gives .x86LinuxGnu .ansi
  rw [beq_iff_eq, each.length_eq] at four
  exact ⟨Text.removesColours_stripEscapes, program, graphs, commented, code, parsed, lowered, emitted,
    plain, without, four⟩

end SmallC
