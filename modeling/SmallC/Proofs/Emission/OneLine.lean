import SmallC.Proofs.Emission.Lines
import SmallC.Proofs.Emission.Listing

/-!
# Lines without line breaks

No part of a line of assembly has a line break: names, numbers and what is left of listings are
visible texts.  So the lines of the emitted text are the lines that were emitted.
-/

namespace SmallC

/-- A text without a line break. -/
def OneLine (text : String) : Prop :=
  '\n' ∉ text.toList

instance (text : String) : Decidable (OneLine text) :=
  inferInstanceAs (Decidable (¬_))

/-! ## Texts -/

@[simp]
theorem oneLine_append {first second : String} :
    OneLine (first ++ second) ↔ OneLine first ∧ OneLine second := by
  simp [OneLine, not_or]

@[simp]
theorem oneLine_ofList {text : List Char} : OneLine (String.ofList text) ↔ '\n' ∉ text := by
  simp [OneLine]

theorem oneLine_of_graphic {text : String} (graphic : ∀ c ∈ text.toList, Text.isGraphic c = true) :
    OneLine text :=
  fun member => absurd (graphic _ member) (by decide)

theorem oneLine_toString_int (number : Int) : OneLine (toString number) :=
  oneLine_of_graphic (Text.visible_toString_int number).graphic

theorem mem_of_mem_intercalate {α : Type} {a : α} {separator : List α} {parts : List (List α)}
    (member : a ∈ separator.intercalate parts) : a ∈ separator ∨ ∃ part ∈ parts, a ∈ part := by
  induction parts with
  | nil => cases member
  | cons first others ih =>
    cases others with
    | nil => exact .inr ⟨first, List.mem_singleton_self first, by simpa using member⟩
    | cons second others =>
      rw [List.intercalate_cons_cons, List.mem_append, List.mem_append] at member
      rcases member with (inFirst | between) | later
      · exact .inr ⟨first, List.mem_cons_self, inFirst⟩
      · exact .inl between
      · refine (ih later).imp_right ?_
        rintro ⟨part, present, inPart⟩
        exact ⟨part, List.mem_cons_of_mem first present, inPart⟩

theorem oneLine_intercalate {separator : String} (separates : OneLine separator)
    {texts : List String} (all : ∀ text ∈ texts, OneLine text) :
    OneLine (separator.intercalate texts) := by
  intro member
  rw [String.toList_intercalate] at member
  rcases mem_of_mem_intercalate member with inSeparator | ⟨part, present, inPart⟩
  · exact separates inSeparator
  · obtain ⟨text, isText, rfl⟩ := List.mem_map.mp present
    exact all text isText inPart

/-! ## Instructions of the machine -/

namespace Assembly

/-- The label that an instruction may jump to. -/
def Instr.target? : Instr → Option String
  | .jump label => some label
  | .jumpIfEqual label => some label
  | _ => none

/-- The function that an instruction calls. -/
def Instr.callee? : Instr → Option String
  | .call function => some function
  | _ => none

theorem oneLine_cell_text (cell : Cell) : OneLine cell.text := by
  have first : OneLine "DWORD PTR [rbp" := by decide
  have sign : OneLine (if cell.offset < 0 then "" else "+") := by
    split <;> decide
  have last : OneLine "]" := by decide
  unfold Cell.text
  simp only [oneLine_append]
  exact ⟨⟨⟨first, sign⟩, oneLine_toString_int _⟩, last⟩

theorem oneLine_operand_text {operand : Operand}
    (symbols : ∀ name, operand = .symbol name → OneLine name) : OneLine operand.text := by
  cases operand with
  | register which width => cases which <;> cases width <;> decide
  | stackPointer | frameBase => decide
  | cell place => exact oneLine_cell_text place
  | immediate value => exact oneLine_toString_int value
  | symbol name => exact symbols name rfl

theorem oneLine_instr_mnemonic (instr : Instr) : OneLine instr.mnemonic := by
  cases instr with
  | alu op target source
  | shift op target count => cases op <;> simp only [Instr.mnemonic] <;> decide
  | set condition target => cases condition <;> simp only [Instr.mnemonic] <;> decide
  | _ => simp only [Instr.mnemonic]; decide

/-- An instruction is a line if the label or the function that it names is one. -/
theorem oneLine_instr_text {instr : Instr} (targets : ∀ label ∈ instr.target?, OneLine label)
    (callees : ∀ function ∈ instr.callee?, OneLine function) : OneLine instr.text := by
  have symbols (operand : Operand) (member : operand ∈ instr.operands) (name : String)
      (isSymbol : operand = .symbol name) : OneLine name := by
    subst isSymbol
    cases instr with
    | call function => simp_all [Instr.operands, Instr.callee?]
    | jump label | jumpIfEqual label => simp_all [Instr.operands, Instr.target?]
    | _ => simp [Instr.operands] at member
  have comma : OneLine ", " := by decide
  have blank : OneLine " " := by decide
  have operands : OneLine (", ".intercalate (instr.operands.map Operand.text)) := by
    apply oneLine_intercalate comma
    intro text isText
    obtain ⟨operand, member, rfl⟩ := List.mem_map.mp isText
    exact oneLine_operand_text (symbols operand member)
  unfold Instr.text
  split
  · exact oneLine_instr_mnemonic instr
  · exact oneLine_append.mpr ⟨oneLine_append.mpr ⟨oneLine_instr_mnemonic instr, blank⟩, operands⟩

/-! ## Lines of a text -/

/-- A text is cut at its line breaks into the lines that were written, and what follows the last of
them is empty. -/
theorem splitOn_render {lines : List Line} (oneLine : ∀ line ∈ lines, OneLine line.text) :
    (Line.render lines).toList.splitOn '\n' = lines.map (fun line => line.text.toList) ++ [[]] := by
  induction lines with
  | nil => rfl
  | cons first others ih =>
    rw [List.forall_mem_cons] at oneLine
    have render_eq : (Line.render (first :: others)).toList =
        first.text.toList ++ '\n' :: (Line.render others).toList := by
      simp [Line.render]
    rw [render_eq, List.splitOn_append_cons_self_of_not_mem oneLine.1, ih oneLine.2]
    rfl

end Assembly

end SmallC
