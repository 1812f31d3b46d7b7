import SmallC.Proofs.Emission.OneLine

/-!
# Reading assembly

How an assembler reads lines of text.  An operand that is spelled like a register is that register, a
number in brackets behind the frame base is a cell, a decimal is a number, and any other word is a
symbol.  Everything that is written by instructions is read as it was meant, except a symbol that is
spelled like a register.
-/

namespace SmallC.Assembly

/-! ## Operands -/

/-- The operands that are written as the names of registers. -/
def registerOperands : List Operand :=
  [.stackPointer, .frameBase] ++ Register.all.flatMap fun which =>
    [.register which .word64, .register which .word32, .register which .byte]

/-- The register that a text names. -/
def registerNamed? (text : List Char) : Option Operand :=
  registerOperands.find? (·.text.toList == text)

/-- The number that a text of digits stands for. -/
def natural? (text : List Char) : Option Nat :=
  if text ≠ [] ∧ text.all Char.isDigit then some (Nat.ofDigitChars 10 text 0) else none

/-- The number that a decimal stands for. -/
def integer? : List Char → Option Int
  | '-' :: digits => (natural? digits).map fun number => -Int.ofNat number
  | digits => (natural? digits).map Int.ofNat

/-- The distance that a number with a sign stands for. -/
def distance? : List Char → Option Int
  | '-' :: digits => integer? ('-' :: digits)
  | '+' :: digits => (natural? digits).map Int.ofNat
  | _ => none

/-- The cell that a text addresses. -/
def cellNamed? (text : List Char) : Option Cell := do
  let rest ← text.dropPrefix? "DWORD PTR [rbp".toList
  let distance ← rest.dropSuffix? [']']
  let offset ← distance? distance
  return ⟨offset⟩

/-- What an operand is read as. -/
def readOperand (text : List Char) : Operand :=
  match registerNamed? text, cellNamed? text, integer? text with
  | some register, _, _ => register
  | none, some place, _ => .cell place
  | none, none, some value => .immediate value
  | none, none, none => .symbol (String.ofList text)

/-! ## Lines -/

/-- What a line of text says. -/
inductive Statement where
  | blank
  | directive (text : String)
  | label (name : String)
  | comment (text : String)
  | instruction (mnemonic : String) (operands : List Operand)
  deriving DecidableEq, Repr

/-- The operands in a text, which stand between commas. -/
def readOperands (text : List Char) : List Operand :=
  (text.splitOn ',').map fun operand => readOperand (operand.dropWhile (· == ' '))

/-- What an instruction is read as: the mnemonic ends at the first blank. -/
def readInstruction (text : List Char) : Statement :=
  let mnemonic := String.ofList (text.takeWhile (· != ' '))
  match text.dropWhile (· != ' ') with
  | [] => .instruction mnemonic []
  | _ :: operands => .instruction mnemonic (readOperands operands)

/-- What stands behind an indent. -/
def readIndented : List Char → Statement
  | '.' :: rest => .directive (String.ofList ('.' :: rest))
  | '#' :: ' ' :: rest => .comment (String.ofList rest)
  | rest => readInstruction rest

/-- What a line is read as, if it is one of assembly. -/
def readLine : List Char → Option Statement
  | [] => some .blank
  | ' ' :: rest => (rest.dropPrefix? "   ".toList).map readIndented
  | first :: rest => ((first :: rest).dropSuffix? [':']).map fun name => .label (String.ofList name)

/-- What the lines of a text are read as.  Every line has its end. -/
def readText (text : String) : List (Option Statement) :=
  ((text.toList.splitOn '\n').dropLast).map readLine

/-- What a line is meant to say. -/
def Line.statement : Line → Statement
  | .blank => .blank
  | .verbatim content => .directive content
  | .label name => .label name
  | .comment content => .comment content
  | .instr content => .instruction content.mnemonic content.operands

/-! ## Numbers -/

theorem natural?_toString (number : Nat) : natural? (toString number).toList = some number := by
  rw [Nat.toString_eq_ofList_toDigits, String.toList_ofList, natural?, if_pos,
    Nat.ofDigitChars_ten_toDigits]
  refine ⟨Nat.toDigits_ne_nil, List.all_eq_true.mpr fun c member => ?_⟩
  exact Nat.isDigit_of_mem_toDigits (by decide) (by decide) member

theorem toList_toString_negSucc (number : Nat) :
    (toString (Int.negSucc number)).toList = '-' :: (toString (number + 1)).toList := by
  show ("-" ++ toString (number + 1)).toList = _
  rw [String.toList_append]
  rfl

theorem integer?_toString (value : Int) : integer? (toString value).toList = some value := by
  cases value with
  | ofNat number =>
    have digits : integer? (toString number).toList =
        (natural? (toString number).toList).map Int.ofNat := by
      unfold integer?
      split
      · rename_i rest list_eq
        have isNumber := natural?_toString number
        rw [list_eq] at isNumber
        simp [natural?] at isNumber
      · rfl
    show integer? (toString number).toList = some (Int.ofNat number)
    rw [digits, natural?_toString, Option.map_some]
  | negSucc number =>
    rw [toList_toString_negSucc, integer?, natural?_toString, Option.map_some]
    rfl

/-- The characters of a decimal. -/
theorem mem_toString_int {value : Int} {c : Char} (member : c ∈ (toString value).toList) :
    c.isDigit = true ∨ c = '-' := by
  have ofNatural {number : Nat} (member : c ∈ (toString number).toList) : c.isDigit = true := by
    rw [Nat.toString_eq_ofList_toDigits, String.toList_ofList] at member
    exact Nat.isDigit_of_mem_toDigits (by decide) (by decide) member
  cases value with
  | ofNat number => exact .inl (ofNatural member)
  | negSucc number =>
    rw [toList_toString_negSucc, List.mem_cons] at member
    exact member.symm.imp_left ofNatural

/-! ## Operands as they are written -/

/-- The name of a register starts with a small letter. -/
theorem registerNamed?_eq_none {first : Char} {rest : List Char} (notLower : first.isLower = false) :
    registerNamed? (first :: rest) = none := by
  have lower : registerOperands.all (fun operand => operand.text.toList.head?.all Char.isLower) =
      true := by
    cbv
  rw [registerNamed?, List.find?_eq_none]
  intro operand member same
  have isLower := List.all_eq_true.mp lower operand member
  rw [beq_iff_eq.mp same, List.head?_cons, Option.all_some, notLower] at isLower
  cases isLower

theorem isLower_of_isDigit {c : Char} (digit : c.isDigit = true) : c.isLower = false := by
  by_contra lower
  have start : Piece.isWordStart c = true := by
    simp [Piece.isWordStart, Char.isAlpha, eq_true_of_ne_false lower]
  rw [isDigit_of_isWordStart start] at digit
  cases digit

variable {text : List Char} {operand : Operand} {name : String} {lines : List Line}

theorem cellNamed?_eq_none (noBlank : ' ' ∉ text) : cellNamed? text = none := by
  rw [cellNamed?, Option.bind_eq_bind, Option.bind_eq_none_iff]
  intro rest isRest
  obtain ⟨start, rfl, start_eq⟩ := List.dropPrefix?_eq_some_iff.mp isRest
  rw [beq_iff_eq.mp start_eq] at noBlank
  exact absurd (List.mem_append_left rest (by decide)) noBlank

theorem distance?_sign (offset : Int) :
    distance? ((if offset < 0 then "" else "+") ++ toString offset).toList = some offset := by
  cases offset with
  | ofNat number =>
    have positive : ¬Int.ofNat number < 0 := Int.not_lt.mpr (Int.natCast_nonneg number)
    rw [if_neg positive, String.toList_append]
    show distance? ('+' :: (toString number).toList) = some (Int.ofNat number)
    rw [distance?, natural?_toString, Option.map_some]
  | negSucc number =>
    rw [if_pos (Int.negSucc_lt_zero number), String.toList_append, toList_toString_negSucc]
    show integer? ('-' :: (toString (number + 1)).toList) = some (Int.negSucc number)
    rw [← toList_toString_negSucc, integer?_toString]

theorem toList_cell_text (place : Cell) :
    place.text.toList = "DWORD PTR [rbp".toList ++
      (((if place.offset < 0 then "" else "+") ++ toString place.offset).toList ++ [']']) := by
  unfold Cell.text
  simp

theorem cellNamed?_text (place : Cell) : cellNamed? place.text.toList = some place := by
  rw [cellNamed?, List.dropPrefix?_eq_some_iff.mpr ⟨_, toList_cell_text place, beq_self_eq_true _⟩,
    Option.bind_eq_bind, Option.bind_some,
    List.dropSuffix?_eq_some_iff.mpr ⟨_, rfl, beq_self_eq_true _⟩,
    Option.bind_eq_bind, Option.bind_some, distance?_sign]
  rfl

theorem readOperand_register (member : operand ∈ registerOperands) :
    readOperand operand.text.toList = operand := by
  have named : ∀ operand ∈ registerOperands,
      registerNamed? operand.text.toList = some operand := by
    decide +kernel
  rw [readOperand, named operand member]

theorem readOperand_cell (place : Cell) : readOperand (Operand.cell place).text.toList = .cell place := by
  have noRegister : registerNamed? place.text.toList = none := by
    rw [toList_cell_text]
    exact registerNamed?_eq_none rfl
  show readOperand place.text.toList = .cell place
  rw [readOperand, noRegister, cellNamed?_text]

theorem readOperand_immediate (value : Int) :
    readOperand (Operand.immediate value).text.toList = .immediate value := by
  have noRegister : registerNamed? (toString value).toList = none := by
    cases list_eq : (toString value).toList with
    | nil => decide +kernel
    | cons first rest =>
      apply registerNamed?_eq_none
      rcases mem_toString_int (list_eq ▸ List.mem_cons_self) with isDigit | rfl
      · exact isLower_of_isDigit isDigit
      · rfl
  have noCell : cellNamed? (toString value).toList = none := by
    refine cellNamed?_eq_none fun blank => ?_
    rcases mem_toString_int blank with isDigit | isSign
    · revert isDigit
      decide
    · revert isSign
      decide
  show readOperand (toString value).toList = .immediate value
  rw [readOperand, noRegister, noCell, integer?_toString]

theorem readOperand_symbol (symbol : isSymbol name = true) :
    readOperand (Operand.symbol name).text.toList =
      (registerNamed? name.toList).getD (.symbol name) := by
  obtain ⟨first, others, list_eq, notDigit, chars⟩ := exists_of_isSymbol symbol
  have absent (c : Char) (noSymbol : isSymbolChar c = false) : c ∉ name.toList := fun member => by
    rw [chars c member] at noSymbol
    cases noSymbol
  have noCell : cellNamed? name.toList = none := cellNamed?_eq_none (absent ' ' (by decide))
  have noDigits : natural? name.toList = none := by
    simp [natural?, list_eq, notDigit]
  have noNumber : integer? name.toList = none := by
    unfold integer?
    split
    · rename_i digits signed
      exact absurd (signed ▸ List.mem_cons_self) (absent '-' (by decide))
    · rw [noDigits, Option.map_none]
  show readOperand name.toList = _
  rw [readOperand, noCell, noNumber, String.ofList_toList]
  cases registerNamed? name.toList <;> rfl

/-! ## Instructions as they are written -/

/-- A text that no comma and no blank before it takes apart. -/
structure Solid (text : List Char) : Prop where
  noComma : ',' ∉ text
  noBlank : text.head? ≠ some ' '

theorem not_mem_toString_int {c : Char} (other : c.isDigit = false) (noSign : c ≠ '-') (value : Int) :
    c ∉ (toString value).toList := by
  intro member
  rcases mem_toString_int member with digit | sign
  · rw [other] at digit
    cases digit
  · exact noSign sign

theorem solid_text (symbols : ∀ name, operand = .symbol name → isSymbol name = true) :
    Solid operand.text.toList := by
  cases operand with
  | register which width => cases which <;> cases width <;> exact ⟨by decide, by decide⟩
  | stackPointer | frameBase => exact ⟨by decide, by decide⟩
  | cell place =>
    have noComma := not_mem_toString_int (c := ',') rfl (by decide) place.offset
    rw [Operand.text, toList_cell_text]
    constructor
    · simp only [String.toList_append, List.mem_append, noComma]
      split <;> decide
    · exact fun blank => absurd (Option.some.inj blank) (by decide)
  | immediate value =>
    refine ⟨not_mem_toString_int rfl (by decide) value, fun blank => ?_⟩
    exact not_mem_toString_int rfl (by decide) value (List.mem_of_mem_head? blank)
  | symbol name =>
    obtain ⟨-, -, -, -, chars⟩ := exists_of_isSymbol (symbols name rfl)
    refine ⟨fun comma => absurd (chars _ comma) (by decide), fun blank => ?_⟩
    exact absurd (chars _ (List.mem_of_mem_head? blank)) (by decide)

/-- Commas with a blank behind them are commas, and the blank belongs to what comes next. -/
theorem intercalate_comma (first : List Char) (others : List (List Char)) :
    ", ".toList.intercalate (first :: others) =
      [','].intercalate (first :: others.map (' ' :: ·)) := by
  have blank (first : List Char) (rest : List (List Char)) :
      ' ' :: [','].intercalate (first :: rest) = [','].intercalate ((' ' :: first) :: rest) := by
    cases rest with
    | nil | cons second rest => simp
  induction others generalizing first with
  | nil => rfl
  | cons second others ih =>
    rw [List.intercalate_cons_cons, ih, List.map_cons, List.intercalate_cons_cons, ← blank]
    simp

theorem Solid.dropWhile_eq (solid : Solid text) : text.dropWhile (· == ' ') = text := by
  cases text with
  | nil => rfl
  | cons first rest =>
    have different : (first == ' ') = false := by
      simpa using solid.noBlank
    simp [different]

/-- Solid texts between commas are read one by one. -/
theorem readOperands_intercalate {texts : List (List Char)} (nonempty : texts ≠ [])
    (solid : ∀ text ∈ texts, Solid text) :
    readOperands (", ".toList.intercalate texts) = texts.map readOperand := by
  cases texts with
  | nil => exact absurd rfl nonempty
  | cons first others =>
    rw [List.forall_mem_cons] at solid
    have noCommas : ∀ text ∈ first :: others.map (' ' :: ·), ',' ∉ text := by
      intro text member
      rcases List.mem_cons.mp member with rfl | later
      · exact solid.1.noComma
      · obtain ⟨other, present, rfl⟩ := List.mem_map.mp later
        simpa using (solid.2 other present).noComma
    rw [readOperands, intercalate_comma, List.splitOn_intercalate ',' noCommas (by simp),
      List.map_cons, List.map_cons, solid.1.dropWhile_eq, List.map_map]
    congr 1
    refine List.map_congr_left fun other present => ?_
    simp [(solid.2 other present).dropWhile_eq]

/-- Mnemonics have no blanks and do not start like directives or comments. -/
theorem mnemonic_plain (instr : Instr) :
    ' ' ∉ instr.mnemonic.toList ∧ instr.mnemonic.toList.head? ≠ some '.' ∧
      instr.mnemonic.toList.head? ≠ some '#' := by
  cases instr with
  | alu op target source
  | shift op target count => cases op <;> simp only [Instr.mnemonic] <;> decide
  | set condition target => cases condition <;> simp only [Instr.mnemonic] <;> decide
  | _ => simp only [Instr.mnemonic]; decide

theorem readIndented_eq (noDot : text.head? ≠ some '.') (noHash : text.head? ≠ some '#') :
    readIndented text = readInstruction text := by
  unfold readIndented
  split
  · exact absurd rfl noDot
  · exact absurd rfl noHash
  · rfl

/-- A mnemonic ends where the first blank is. -/
theorem readInstruction_append {mnemonic : List Char} (noBlank : ' ' ∉ mnemonic)
    (operands : List Char) :
    readInstruction (mnemonic ++ ' ' :: operands) =
      .instruction (String.ofList mnemonic) (readOperands operands) := by
  have all : ∀ c ∈ mnemonic, (c != ' ') = true := fun c member => by
    simpa using ne_of_mem_of_not_mem member noBlank
  simp [readInstruction, List.takeWhile_append_of_pos all, List.dropWhile_append_of_pos all]

theorem readInstruction_of_noBlank {mnemonic : List Char} (noBlank : ' ' ∉ mnemonic) :
    readInstruction mnemonic = .instruction (String.ofList mnemonic) [] := by
  have all : ∀ c ∈ mnemonic, (c != ' ') = true := fun c member => by
    simpa using ne_of_mem_of_not_mem member noBlank
  rw [readInstruction, List.takeWhile_eq_self_iff.mpr all, List.dropWhile_eq_nil_iff.mpr all]

/-- An instruction is read as its mnemonic and what its operands are read as. -/
theorem readIndented_text {instr : Instr}
    (symbols : ∀ name, .symbol name ∈ instr.operands → isSymbol name = true) :
    readIndented instr.text.toList =
      .instruction instr.mnemonic
        (instr.operands.map fun operand => readOperand operand.text.toList) := by
  obtain ⟨noBlank, noDot, noHash⟩ := mnemonic_plain instr
  unfold Instr.text
  split
  · rename_i none_eq
    rw [readIndented_eq noDot noHash, readInstruction_of_noBlank noBlank, String.ofList_toList, none_eq]
    rfl
  · rename_i operands_ne
    have text_eq : (instr.mnemonic ++ " " ++
        ", ".intercalate (instr.operands.map Operand.text)).toList =
          instr.mnemonic.toList ++ ' ' ::
            ", ".toList.intercalate (instr.operands.map fun operand => operand.text.toList) := by
      simp [String.toList_intercalate, Function.comp_def]
    have solid : ∀ text ∈ instr.operands.map (fun operand => operand.text.toList), Solid text := by
      intro text member
      obtain ⟨operand, present, rfl⟩ := List.mem_map.mp member
      exact solid_text fun name isSymbol => symbols name (isSymbol ▸ present)
    have nonempty : instr.operands.map (fun operand => operand.text.toList) ≠ [] := by
      simpa using operands_ne
    rw [text_eq, readIndented_eq, readInstruction_append noBlank, String.ofList_toList,
      readOperands_intercalate nonempty solid, List.map_map]
    · rfl
    · cases list_eq : instr.mnemonic.toList <;> simp_all
    · cases list_eq : instr.mnemonic.toList <;> simp_all

/-! ## Lines as they are written -/

/-- The name of a symbol. -/
def Operand.symbol? : Operand → Option String
  | .symbol name => some name
  | _ => none

/-- The symbols that a line uses. -/
def Line.symbols : Line → List String
  | .instr content => content.operands.filterMap Operand.symbol?
  | _ => []

/-- Lines that are written with names of symbols. -/
structure Line.Readable (line : Line) : Prop where
  directive : ∀ content, line = .verbatim content → content.toList.head? = some '.'
  label : ∀ name, line = .label name → isSymbol name = true
  symbols : ∀ name ∈ line.symbols, isSymbol name = true

theorem mem_symbols_instr {content : Instr} :
    name ∈ (Line.instr content).symbols ↔ .symbol name ∈ content.operands := by
  rw [Line.symbols, List.mem_filterMap]
  constructor
  · rintro ⟨operand, member, isSymbol⟩
    cases operand with
    | symbol other =>
      cases isSymbol
      exact member
    | _ => cases isSymbol
  · exact fun member => ⟨.symbol name, member, rfl⟩

theorem readOperand_text_iff (symbols : ∀ name, operand = .symbol name → isSymbol name = true) :
    readOperand operand.text.toList = operand ↔
      ∀ name, operand = .symbol name → registerNamed? name.toList = none := by
  cases operand with
  | register which width =>
    have member : .register which width ∈ registerOperands :=
      List.mem_append_right _ (List.mem_flatMap.mpr
        ⟨which, Register.mem_all which, by cases width <;> simp⟩)
    exact iff_of_true (readOperand_register member) nofun
  | stackPointer
  | frameBase => exact iff_of_true (readOperand_register (by simp [registerOperands])) nofun
  | cell place => exact iff_of_true (readOperand_cell place) nofun
  | immediate value => exact iff_of_true (readOperand_immediate value) nofun
  | symbol name =>
    rw [readOperand_symbol (symbols name rfl)]
    constructor
    · rintro same other ⟨⟩
      cases named : registerNamed? name.toList with
      | none => rfl
      | some register =>
        rw [named, Option.getD_some] at same
        have noSymbol : ∀ operand ∈ registerOperands, operand.symbol? = none := by decide
        have isNone := noSymbol register (List.mem_of_find?_eq_some named)
        rw [same] at isNone
        cases isNone
    · intro noRegister
      rw [noRegister name rfl, Option.getD_none]

theorem readLine_indented (content : String) :
    readLine ("    " ++ content).toList = some (readIndented content.toList) := by
  have dropped : (' ' :: ' ' :: ' ' :: content.toList).dropPrefix? "   ".toList =
      some content.toList :=
    List.dropPrefix?_eq_some_iff.mpr ⟨"   ".toList, rfl, beq_self_eq_true _⟩
  rw [String.toList_append]
  show ((' ' :: ' ' :: ' ' :: content.toList).dropPrefix? "   ".toList).map readIndented = _
  rw [dropped, Option.map_some]

theorem readLine_label (symbol : isSymbol name = true) :
    readLine (name ++ ":").toList = some (.label name) := by
  obtain ⟨first, others, list_eq, -, chars⟩ := exists_of_isSymbol symbol
  have noBlank : first ≠ ' ' := by
    rintro rfl
    exact absurd (chars ' ' (list_eq ▸ List.mem_cons_self)) (by decide)
  have ended : ((first :: (others ++ [':'])).dropSuffix? [':']) = some name.toList :=
    List.dropSuffix?_eq_some_iff.mpr ⟨_, by rw [list_eq]; rfl, beq_self_eq_true _⟩
  rw [String.toList_append, list_eq]
  show readLine (first :: (others ++ [':'])) = _
  unfold readLine
  split
  · rename_i isNil
    cases isNil
  · rename_i isBlank
    exact absurd (List.cons.inj isBlank).1 noBlank
  · rename_i other rest _ cons_eq
    rw [← cons_eq, ended, Option.map_some, String.ofList_toList]

/-- A line is read as it is meant exactly when no symbol in it is spelled like a register. -/
theorem readLine_text_iff {line : Line} (readable : line.Readable) :
    readLine line.text.toList = some line.statement ↔
      ∀ name ∈ line.symbols, registerNamed? name.toList = none := by
  cases line with
  | blank => exact iff_of_true rfl nofun
  | verbatim content =>
    refine iff_of_true ?_ nofun
    obtain ⟨rest, list_eq⟩ := List.head?_eq_some_iff.mp (readable.directive content rfl)
    rw [Line.text, readLine_indented, list_eq, readIndented, ← list_eq, String.ofList_toList]
    rfl
  | label name => exact iff_of_true (readLine_label (readable.label name rfl)) nofun
  | comment content =>
    refine iff_of_true ?_ nofun
    have text_eq : (Line.comment content).text = "    " ++ ("# " ++ content) := by
      rw [Line.text, ← String.append_assoc]
      rfl
    have comment_eq : ("# " ++ content).toList = '#' :: ' ' :: content.toList := by
      rw [String.toList_append]
      rfl
    rw [text_eq, readLine_indented, comment_eq, readIndented, String.ofList_toList]
    rfl
  | instr content =>
    have symbols (operand : Operand) (member : operand ∈ content.operands) (name : String)
        (isName : operand = .symbol name) : isSymbol name = true :=
      readable.symbols name (mem_symbols_instr.mpr (isName ▸ member))
    have pointwise : content.operands.map (fun operand => readOperand operand.text.toList) =
        content.operands ↔
          ∀ operand ∈ content.operands, readOperand operand.text.toList = operand := by
      conv_lhs => rw [← List.map_id content.operands, List.map_map]
      exact List.map_inj_left
    rw [Line.text, readLine_indented,
      readIndented_text fun name member => symbols _ member name rfl, Line.statement,
      Option.some.injEq, Statement.instruction.injEq, pointwise]
    constructor
    · rintro ⟨-, same⟩ name isSymbol
      have member := mem_symbols_instr.mp isSymbol
      exact (readOperand_text_iff (symbols _ member)).mp (same _ member) name rfl
    · intro noRegisters
      refine ⟨rfl, fun operand member => ?_⟩
      refine (readOperand_text_iff (symbols operand member)).mpr fun name isName => ?_
      exact noRegisters name (mem_symbols_instr.mpr (isName ▸ member))

/-! ## Texts -/

/-- The lines of a text are those that were written, if none of them has a line break. -/
theorem readText_render (oneLine : ∀ line ∈ lines, OneLine line.text) :
    readText (Line.render lines) = lines.map fun line => readLine line.text.toList := by
  rw [readText, splitOn_render oneLine, List.dropLast_concat, List.map_map]
  rfl

/-- Whether a text is read as what lines are meant to say. -/
def ReadAs (text : String) (lines : List Line) : Prop :=
  readText text = lines.map fun line => some line.statement

theorem readAs_render_iff (oneLine : ∀ line ∈ lines, OneLine line.text)
    (readable : ∀ line ∈ lines, line.Readable) :
    ReadAs (Line.render lines) lines ↔
      ∀ line ∈ lines, ∀ name ∈ line.symbols, registerNamed? name.toList = none := by
  rw [ReadAs, readText_render oneLine, List.map_inj_left]
  exact forall₂_congr fun line member => readLine_text_iff (readable line member)

theorem AluOp.mnemonic_inj {op other : AluOp} : op.mnemonic = other.mnemonic ↔ op = other := by
  cases op <;> cases other <;> decide

theorem ShiftOp.mnemonic_inj {op other : ShiftOp} : op.mnemonic = other.mnemonic ↔ op = other := by
  cases op <;> cases other <;> decide

theorem setMnemonic_inj {op other : CompareOp} : setMnemonic op = setMnemonic other ↔ op = other := by
  cases op <;> cases other <;> decide

theorem AluOp.mnemonic_ne (op : AluOp) : op.mnemonic ≠ "mov" ∧ op.mnemonic ≠ "cmp" := by
  cases op <;> decide

theorem ShiftOp.mnemonic_ne (op : ShiftOp) : op.mnemonic ≠ "movzx" := by
  cases op <;> decide

/-- The mnemonic and the operands determine the instruction. -/
theorem instr_eq_of_parts {first second : Instr} (mnemonic_eq : first.mnemonic = second.mnemonic)
    (operands_eq : first.operands = second.operands) : first = second := by
  -- The operands alone tell most kinds of instructions apart.
  cases first <;> cases second <;>
    simp only [Instr.operands, List.cons.injEq, reduceCtorEq, false_and, and_false] at operands_eq
  all_goals
    simp_all [Instr.mnemonic, Int32.toInt_inj, AluOp.mnemonic_inj, ShiftOp.mnemonic_inj,
      setMnemonic_inj, AluOp.mnemonic_ne, ShiftOp.mnemonic_ne, (AluOp.mnemonic_ne _).1.symm,
      (AluOp.mnemonic_ne _).2.symm, (ShiftOp.mnemonic_ne _).symm]

/-- A text is read in one way only. -/
theorem ReadAs.only {text : String} {others : List Line} (isRead : ReadAs text lines) :
    ReadAs text others ↔ others = lines := by
  have injective : Function.Injective fun line : Line => some line.statement := by
    intro first second same
    cases first <;> cases second <;> simp_all [Line.statement]
    exact instr_eq_of_parts same.1 same.2
  constructor
  · exact fun otherRead => injective.list_map (otherRead.symm.trans isRead)
  · rintro rfl
    exact isRead

end SmallC.Assembly
