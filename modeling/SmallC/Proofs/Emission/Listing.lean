import SmallC.Proofs.Emission.Names

/-!
# Listings without colours

All names of a graph are symbols of assembly, or are made of characters that a terminal shows at
least.  The comments of assembly show listings of which the colours are taken away again.  If nothing else
is taken away, what is left of a listing in any palette is the listing in the plain one.
-/

namespace SmallC

namespace Assembly

open SmallC.Graph

/-! ## Symbols -/

/-- The characters of symbols. -/
def isSymbolChar (c : Char) : Bool :=
  Piece.isWordChar c || c == '.' || c == '@'

/-- Names that are written as symbols. -/
def isSymbol (name : String) : Bool :=
  match name.toList with
  | [] => false
  | first :: others => !first.isDigit && (first :: others).all isSymbolChar

variable {name : String}

theorem exists_of_isSymbol (symbol : isSymbol name = true) :
    ∃ first others, name.toList = first :: others ∧ first.isDigit = false ∧
      ∀ c ∈ name.toList, isSymbolChar c = true := by
  unfold isSymbol at symbol
  split at symbol
  · cases symbol
  · rename_i first others list_eq
    rw [Bool.and_eq_true, Bool.not_eq_true_eq_eq_false, List.all_eq_true, ← list_eq] at symbol
    exact ⟨first, others, list_eq, symbol⟩

variable {c : Char}

theorem isSymbolChar_of_isWordStart (start : Piece.isWordStart c = true) :
    isSymbolChar c = true := by
  simp [isSymbolChar, Piece.isWordChar, start]

theorem isSymbolChar_of_isDigit (digit : c.isDigit = true) : isSymbolChar c = true := by
  simp [isSymbolChar, Piece.isWordChar, digit]

theorem isSymbol_of_toList {first : Char} {others : List Char}
    (list_eq : name.toList = first :: others) (notDigit : first.isDigit = false)
    (chars : ∀ c ∈ first :: others, isSymbolChar c = true) : isSymbol name = true := by
  rw [isSymbol, list_eq]
  simp only [notDigit, List.all_eq_true.mpr chars, Bool.not_false, Bool.and_self]

theorem isSymbol_append {rest : String} (symbol : isSymbol name = true)
    (chars : ∀ c ∈ rest.toList, isSymbolChar c = true) : isSymbol (name ++ rest) = true := by
  obtain ⟨first, others, list_eq, notDigit, nameChars⟩ := exists_of_isSymbol symbol
  have append_eq : (name ++ rest).toList = first :: (others ++ rest.toList) := by
    rw [String.toList_append, list_eq, List.cons_append]
  refine isSymbol_of_toList append_eq notDigit fun c member => ?_
  rw [← List.cons_append, ← list_eq, List.mem_append] at member
  exact member.elim (nameChars c) (chars c)

theorem isSymbol_of_isWord {word : String} (isWord : isWord word = true) : isSymbol word = true := by
  unfold SmallC.isWord at isWord
  split at isWord
  · cases isWord
  · rename_i first others list_eq
    rw [Bool.and_eq_true, List.all_eq_true] at isWord
    refine isSymbol_of_toList list_eq (isDigit_of_isWordStart isWord.1) ?_
    rw [List.forall_mem_cons]
    refine ⟨isSymbolChar_of_isWordStart isWord.1, fun c member => ?_⟩
    simp [isSymbolChar, isWord.2 c member]

theorem isSymbol_callTarget (defined : String → Bool) {word : String}
    (isWord : isWord word = true) : isSymbol (Lowering.callTarget defined word) = true := by
  unfold Lowering.callTarget
  split
  · exact isSymbol_of_isWord isWord
  · have suffix : Lowering.externalSuffix.toList.all isSymbolChar = true := by cbv
    exact isSymbol_append (isSymbol_of_isWord isWord) (List.all_eq_true.mp suffix)

theorem isSymbol_blockLabel {function tag : String} (word : isWord function = true)
    (plain : plainTag tag = true) (number : Nat) :
    isSymbol (blockLabel function number tag) = true := by
  obtain ⟨-, -, -, -, functionChars⟩ := exists_of_isSymbol (isSymbol_of_isWord word)
  have tagChars : ∀ c ∈ tag.toList, isSymbolChar c = true := fun c member =>
    isSymbolChar_of_isWordStart (List.all_eq_true.mp plain c member)
  have digits : ∀ c ∈ (toString number).toList, isSymbolChar c = true := by
    intro c member
    rw [Nat.toString_eq_ofList_toDigits, String.toList_ofList] at member
    exact isSymbolChar_of_isDigit (Nat.isDigit_of_mem_toDigits (by decide) (by decide) member)
  have mark : isSymbol ".L" = true := by decide
  have underscore : ∀ c ∈ "_".toList, isSymbolChar c = true := by
    simp [isSymbolChar, Piece.isWordChar, Piece.isWordStart]
  exact isSymbol_append (isSymbol_append (isSymbol_append (isSymbol_append
    (isSymbol_append mark functionChars) underscore) digits) underscore) tagChars

end Assembly

namespace Text

/-! ## Visible texts -/

/-- The characters that are shown as they are. -/
def isGraphic (c : Char) : Bool :=
  0x20 ≤ c.toNat && c.toNat < 0x7f

/-- A text that is not empty and has only characters that are shown as they are. -/
structure Visible (text : String) : Prop where
  nonempty : text.toList ≠ []
  graphic : ∀ c ∈ text.toList, isGraphic c = true

theorem Visible.append {first second : String} (visible : Visible first)
    (graphic : ∀ c ∈ second.toList, isGraphic c = true) : Visible (first ++ second) where
  nonempty := by simp [visible.nonempty]
  graphic := by
    rw [String.toList_append]
    exact List.forall_mem_append.mpr ⟨visible.graphic, graphic⟩

theorem isGraphic_of_isDigit (digit : c.isDigit = true) : isGraphic c = true := by
  simp only [Char.isDigit, Bool.and_eq_true, decide_eq_true_eq, ge_iff_le,
    UInt32.le_iff_toNat_le] at digit
  simp only [isGraphic, Bool.and_eq_true, decide_eq_true_eq]
  simp at digit
  omega

theorem isGraphic_of_isSymbolChar (symbol : Assembly.isSymbolChar c = true) :
    isGraphic c = true := by
  simp only [Assembly.isSymbolChar, Piece.isWordChar, Piece.isWordStart, Char.isAlpha, Char.isUpper,
    Char.isLower, Bool.or_eq_true, Bool.and_eq_true, decide_eq_true_eq, beq_iff_eq] at symbol
  rcases symbol with ((((upper | lower) | rfl) | digit) | rfl) | rfl
  · simp only [ge_iff_le, UInt32.le_iff_toNat_le] at upper
    simp only [isGraphic, Bool.and_eq_true, decide_eq_true_eq]
    simp at upper
    omega
  · simp only [ge_iff_le, UInt32.le_iff_toNat_le] at lower
    simp only [isGraphic, Bool.and_eq_true, decide_eq_true_eq]
    simp at lower
    omega
  · decide
  · exact isGraphic_of_isDigit digit
  · decide
  · decide

theorem visible_of_isSymbol (symbol : Assembly.isSymbol name = true) : Visible name := by
  obtain ⟨first, others, list_eq, -, chars⟩ := Assembly.exists_of_isSymbol symbol
  exact ⟨by simp [list_eq], fun c member => isGraphic_of_isSymbolChar (chars c member)⟩

theorem visible_toString_nat (number : Nat) : Visible (toString number) := by
  rw [Nat.toString_eq_ofList_toDigits]
  refine ⟨by simp, fun c member => isGraphic_of_isDigit ?_⟩
  rw [String.toList_ofList] at member
  exact Nat.isDigit_of_mem_toDigits (by decide) (by decide) member

theorem visible_toString_int (number : Int) : Visible (toString number) := by
  cases number with
  | ofNat natural => exact visible_toString_nat natural
  | negSucc natural =>
    have mark : Visible "-" := ⟨by decide, List.all_eq_true.mp (by cbv)⟩
    exact mark.append (visible_toString_nat (natural + 1)).graphic

/-! ## Texts in colour -/

/-- A text in colour beside the text without its colours.  A code for a colour is the escape
character, a bracket, numbers and the letter `m`, and all other characters are shown as they are. -/
inductive Coloured : List Char → List Char → Prop
  | nil : Coloured [] []
  | shown {c : Char} {text left : List Char} (graphic : isGraphic c = true)
      (others : Coloured text left) : Coloured (c :: text) (c :: left)
  | code {parameters text left : List Char}
      (numbers : ∀ c ∈ parameters, c.isDigit = true ∨ c = ';') (others : Coloured text left) :
      Coloured ('\x1b' :: '[' :: (parameters ++ 'm' :: text)) left

namespace Coloured

variable {text left more moreLeft : List Char}

section

variable (coloured : Coloured text left)
include coloured

theorem append (others : Coloured more moreLeft) : Coloured (text ++ more) (left ++ moreLeft) := by
  induction coloured with
  | nil => exact others
  | shown graphic _ ih => exact .shown graphic ih
  | code numbers _ ih =>
    rw [List.cons_append, List.cons_append, List.append_assoc, List.cons_append]
    exact .code numbers ih

/-- Something is left only of a text that is not empty. -/
theorem ne_nil (nonempty : left ≠ []) : text ≠ [] := by
  rintro rfl
  cases coloured
  exact nonempty rfl

theorem left_graphic : ∀ c ∈ left, isGraphic c = true := by
  induction coloured with
  | nil => exact List.forall_mem_nil _
  | shown graphic _ ih => exact List.forall_mem_cons.mpr ⟨graphic, ih⟩
  | code _ _ ih => exact ih

end

theorem graphic (all : ∀ c ∈ text, isGraphic c = true) : Coloured text text := by
  induction text with
  | nil => exact .nil
  | cons c others ih =>
    rw [List.forall_mem_cons] at all
    exact .shown all.1 (ih all.2)

/-- Nothing is left of the sequence that turns a style on. -/
theorem start (style : Style) : Coloured style.start.toList [] := by
  have numbers : ∀ c ∈ style.code.toList, c.isDigit = true ∨ c = ';' := by
    cases style <;> simp [Style.code]
  have list_eq : style.start.toList = '\x1b' :: '[' :: (style.code.toList ++ ['m']) := by
    simp [Style.start]
  rw [list_eq]
  exact .code numbers .nil

/-- Nothing is left of the sequence that turns every style off. -/
theorem reset : Coloured Style.reset.toList [] :=
  @code ['0'] [] [] (by simp) .nil

/-- A list of texts between separators. -/
theorem intercalate {separator : List Char} (separates : Coloured separator separator)
    {texts lefts : List (List Char)} (each : List.Forall₂ Coloured texts lefts) :
    Coloured (separator.intercalate texts) (separator.intercalate lefts) := by
  induction each with
  | nil => exact .nil
  | @cons first firstLeft others othersLeft here later ih =>
    cases later with
    | nil => simpa using here
    | cons second rest =>
      rw [List.intercalate_cons_cons, List.intercalate_cons_cons]
      exact (here.append separates).append ih

end Coloured

/-- A function on texts removes exactly the codes for colours. -/
def RemovesColours (strip : String → String) : Prop :=
  ∀ text left : String, Coloured text.toList left.toList → strip text = left

theorem shownFrom_graphic (graphic : isGraphic c = true) (rest : List Char) :
    shownFrom isPrinting .ground (c :: rest) = c :: shownFrom isPrinting .ground rest := by
  simp only [isGraphic, Bool.and_eq_true, decide_eq_true_eq] at graphic
  have noEscape : c ≠ '\x1b' := by rintro rfl; exact absurd graphic (by decide)
  have printing : isPrinting c = true := by
    simp only [isPrinting, Bool.or_eq_true, Bool.not_eq_true', Bool.or_eq_false_iff,
      Bool.and_eq_false_iff, decide_eq_true_eq, decide_eq_false_iff_not]
    omega
  have shown : TerminalState.step isPrinting .ground c = (.ground, [c]) := by
    simp only [TerminalState.step, noEscape, if_false]
    split <;> simp [printing]
  rw [shownFrom, shown]
  rfl

theorem shownFrom_code {parameters : List Char}
    (numbers : ∀ c ∈ parameters, c.isDigit = true ∨ c = ';') (rest : List Char) :
    shownFrom isPrinting .ground ('\x1b' :: '[' :: (parameters ++ 'm' :: rest)) =
      shownFrom isPrinting .ground rest := by
  change shownFrom isPrinting .controlSequence (parameters ++ 'm' :: rest) = _
  induction parameters with
  | nil => rfl
  | cons c others ih =>
    rw [List.forall_mem_cons] at numbers
    have range : 0x30 ≤ c.toNat ∧ c.toNat < 0x3c := by
      rcases numbers.1 with digit | rfl
      · simp only [Char.isDigit, Bool.and_eq_true, decide_eq_true_eq, ge_iff_le,
          UInt32.le_iff_toNat_le] at digit
        simp at digit
        omega
      · decide
    have passed : TerminalState.step isPrinting .controlSequence c = (.controlSequence, []) := by
      have noEscape : c ≠ '\x1b' := by rintro rfl; exact absurd range (by decide)
      have noCancel : (c = '\x18' || c = '\x1a') = false := by
        simp only [Bool.or_eq_false_iff, decide_eq_false_iff_not]
        constructor <;> (rintro rfl; exact absurd range (by decide))
      have noControl : ¬ c.toNat < 0x20 := by omega
      have notLast : (0x40 ≤ c.toNat && c.toNat < 0x7f) = false := by
        rw [Bool.and_eq_false_iff, decide_eq_false_iff_not]
        omega
      simp [TerminalState.step, noEscape, noCancel, noControl, notLast]
    rw [List.cons_append, shownFrom, passed]
    exact ih numbers.2

/-- What a terminal acts on are the codes for colours, in a text that has nothing else of the kind. -/
theorem removesColours_stripEscapes : RemovesColours (stripEscapes isPrinting) := by
  intro text left coloured
  rw [stripEscapes, ← String.toList_inj, String.toList_ofList]
  generalize text.toList = chars, left.toList = leftChars at coloured
  induction coloured with
  | nil => rfl
  | shown graphic _ ih => rw [shownFrom_graphic graphic, ih]
  | code numbers _ ih => rw [shownFrom_code numbers, ih]

/-- A visible text has no sequence that turns the style off. -/
theorem resume_eq (style : Style) {text : List Char} (all : ∀ c ∈ text, isGraphic c = true) :
    style.resume text = text := by
  fun_induction style.resume text with
  | case1 => rfl
  | case2 rest ih => exact absurd (all '\x1b' List.mem_cons_self) (by decide)
  | case3 c rest _ ih => rw [ih fun d member => all d (List.mem_cons_of_mem c member)]

theorem coloured_paint (palette : Palette) (style : Style) {text : String}
    (all : ∀ c ∈ text.toList, isGraphic c = true) :
    Coloured (palette.paint style text).toList text.toList := by
  cases palette with
  | plain => exact .graphic all
  | ansi =>
    have painted := ((Coloured.start style).append (.graphic all)).append .reset
    rw [List.nil_append, List.append_nil] at painted
    simpa [Palette.paint, resume_eq style all] using painted

end Text

/-! ## Listings -/

namespace Graph

open Text

variable {defined : String → Bool} {graph : Graph}

/-- A graph of which all names are visible. -/
structure Legible (graph : Graph) : Prop where
  name : Visible graph.name
  labels : ∀ id block, graph.blocks.get? id = some block → Visible block.label
  symbols : ∀ slot symbol, graph.symbols.get? slot = some symbol → Visible symbol.name
  functions : ∀ id block, graph.blocks.get? id = some block → ∀ instruction ∈ block.instructions,
    ∀ function, .function function ∈ instruction.operands → Visible function

variable {instruction : Instruction}

/-- The function that an instruction names, if it names one, is the target of a word. -/
theorem exists_word_of_function (formed : instruction.WellFormed graph.HasSlot graph.HasBlock)
    (calls : instruction.CallsWord defined) {function : String}
    (isOperand : .function function ∈ instruction.operands) :
    ∃ name, isWord name = true ∧ function = Lowering.callTarget defined name := by
  cases formed with
  | call name target arguments =>
    obtain ⟨callTarget, callee, callArguments, word, instruction_eq⟩ := calls rfl
    rw [instruction_eq] at isOperand
    simp only [Instruction.call, List.mem_cons, List.mem_map, reduceCtorEq,
      Operand.function.injEq, and_false, exists_false, or_false, false_or] at isOperand
    exact ⟨callee, word, isOperand⟩
  | @ret value slotsKnown => cases value <;> simp [Instruction.ret] at isOperand
  | loadConstant value target => simp [Instruction.loadConstant] at isOperand
  | copy target source => simp [Instruction.copy] at isOperand
  | arithmetic op target left right => simp [Instruction.arithmetic] at isOperand
  | compare op target left right => simp [Instruction.compare] at isOperand
  | unary op target => simp [Instruction.unary] at isOperand
  | step op target => simp [Instruction.step] at isOperand
  | jump target => simp [Instruction.jump] at isOperand

theorem Named.legible (named : graph.Named defined) (formed : graph.WellFormed) :
    graph.Legible := by
  refine ⟨visible_of_isSymbol (Assembly.isSymbol_of_isWord named.word), ?labels, ?symbols,
    ?functions⟩
  case labels =>
    intro id block found
    obtain ⟨tag, plain, label_eq⟩ := named.labels id block found
    rw [label_eq]
    exact visible_of_isSymbol (Assembly.isSymbol_blockLabel named.word plain _)
  case symbols =>
    intro slot symbol found
    rcases named.symbols symbol (List.mem_of_getElem? found) with word | ⟨number, name_eq⟩
    · exact visible_of_isSymbol (Assembly.isSymbol_of_isWord word)
    · have mark : Visible "!t" := ⟨by decide, List.all_eq_true.mp (by cbv)⟩
      rw [name_eq, temporaryName]
      exact mark.append (visible_toString_nat number).graphic
  case functions =>
    intro id block found instruction member function isOperand
    obtain ⟨word, isWord, rfl⟩ := exists_word_of_function
      ((formed.blocks_formed id block found).instructions instruction member)
      (named.calls id block found instruction member) isOperand
    exact visible_of_isSymbol (Assembly.isSymbol_callTarget defined isWord)

variable {palette : Palette}

/-- An operand is listed in every palette if it is listed in one, and then only its styles differ. -/
theorem exists_showOperand_plain (legible : graph.Legible) {operand : Operand}
    (functions : ∀ function, operand = .function function → Visible function) {text : String}
    (shown : graph.showOperand palette operand = .ok text) :
    ∃ plain, graph.showOperand .plain operand = .ok plain ∧ Visible plain ∧
      Coloured text.toList plain.toList := by
  have painted (style : Style) {name : String} (visible : Visible name) :
      Visible name ∧ Coloured (palette.paint style name).toList name.toList :=
    ⟨visible, coloured_paint palette style visible.graphic⟩
  cases operand with
  | slot slot =>
    simp only [showOperand, showSlot, bind_eq_ok_iff, symbol_eq_ok_iff, pure_eq_ok,
      Except.ok.injEq] at shown ⊢
    obtain ⟨symbol, found, rfl⟩ := shown
    exact ⟨_, ⟨symbol, found, rfl⟩, painted _ (legible.symbols slot symbol found)⟩
  | literal value =>
    cases shown
    exact ⟨_, rfl, painted _ (visible_toString_int _)⟩
  | label id =>
    simp only [showOperand, showBlock, bind_eq_ok_iff, block_eq_ok_iff, pure_eq_ok,
      Except.ok.injEq] at shown ⊢
    obtain ⟨block, found, rfl⟩ := shown
    exact ⟨_, ⟨block, found, rfl⟩, painted _ (legible.labels id block found)⟩
  | function name =>
    cases shown
    exact ⟨_, rfl, painted _ (functions name rfl)⟩

theorem exists_showOperands_plain (legible : graph.Legible) {operands : List Operand}
    (functions : ∀ function, .function function ∈ operands → Visible function) {texts : List String}
    (shown : graph.showOperands palette operands = .ok texts) :
    ∃ plains, graph.showOperands .plain operands = .ok plains ∧
      List.Forall₂ (fun text plain => Visible plain ∧ Coloured text.toList plain.toList)
        texts plains := by
  induction operands generalizing texts with
  | nil =>
    cases shown
    exact ⟨[], rfl, .nil⟩
  | cons first others ih =>
    simp only [showOperands, bind_eq_ok_iff, pure_eq_ok, Except.ok.injEq] at shown ⊢
    obtain ⟨text, firstShown, rest, othersShown, rfl⟩ := shown
    obtain ⟨plain, plain_eq, here⟩ := exists_showOperand_plain legible
      (fun function isFirst => functions function (isFirst ▸ List.mem_cons_self)) firstShown
    obtain ⟨plains, plains_eq, later⟩ :=
      ih (fun function later => functions function (List.mem_cons_of_mem _ later)) othersShown
    exact ⟨plain :: plains, ⟨plain, plain_eq, plains, plains_eq, rfl⟩, .cons here later⟩

theorem graphic_mnemonic (operation : Operation) :
    ∀ c ∈ operation.mnemonic.toList, isGraphic c = true := by
  rw [← List.all_eq_true]
  unfold Operation.mnemonic
  split <;> cbv

/-- The listing of an instruction is its plain listing in colour. -/
theorem exists_showInstruction_plain (legible : graph.Legible)
    (functions : ∀ function, .function function ∈ instruction.operands → Visible function)
    {listing : String} (shown : graph.showInstruction palette instruction = .ok listing) :
    ∃ plain, graph.showInstruction .plain instruction = .ok plain ∧
      Coloured listing.toList plain.toList := by
  simp only [showInstruction, bind_eq_ok_iff, pure_eq_ok, Except.ok.injEq] at shown ⊢
  obtain ⟨texts, operandsShown, rfl⟩ := shown
  obtain ⟨plains, plains_eq, each⟩ := exists_showOperands_plain legible functions operandsShown
  refine ⟨_, ⟨plains, plains_eq, rfl⟩, ?_⟩
  have operation := coloured_paint palette .cyan (graphic_mnemonic instruction.operation)
  have comma : Coloured ", ".toList ", ".toList := .graphic (List.all_eq_true.mp (by cbv))
  have blank : Coloured " ".toList " ".toList := .graphic (List.all_eq_true.mp (by cbv))
  have operands : Coloured (", ".intercalate texts).toList (", ".intercalate plains).toList := by
    rw [String.toList_intercalate, String.toList_intercalate]
    refine .intercalate comma ?_
    rw [List.forall₂_map_left_iff, List.forall₂_map_right_iff]
    exact each.imp fun _ _ both => both.2
  -- There is a blank before the operands exactly when there are some, in either palette.
  have sameEmpty : (", ".intercalate texts).isEmpty = (", ".intercalate plains).isEmpty := by
    cases each with
    | nil => rfl
    | @cons text plain others otherPlains here later =>
      have plain_ne : (", ".intercalate (plain :: otherPlains)).toList ≠ [] := by
        cases otherPlains <;> simp [String.toList_intercalate, here.1.nonempty]
      have isFull {text : String} (nonempty : text.toList ≠ []) : text.isEmpty = false := by
        rw [Bool.eq_false_iff, ne_eq, String.isEmpty_iff]
        rintro rfl
        exact nonempty rfl
      rw [isFull plain_ne, isFull (operands.ne_nil plain_ne)]
  rw [sameEmpty]
  split
  · exact operation
  · simp only [String.toList_append]
    exact (operation.append blank).append operands

/-- What is left of the listing of an instruction without its colours is its plain listing, and has
only characters that are shown as they are. -/
theorem showInstruction_plain {strip : String → String} (removes : RemovesColours strip)
    (legible : graph.Legible)
    (functions : ∀ function, .function function ∈ instruction.operands → Visible function)
    {listing : String} (shown : graph.showInstruction palette instruction = .ok listing) :
    graph.showInstruction .plain instruction = .ok (strip listing) ∧
      ∀ c ∈ (strip listing).toList, isGraphic c = true := by
  obtain ⟨plain, plain_eq, coloured⟩ := exists_showInstruction_plain legible functions shown
  rw [removes listing plain coloured]
  exact ⟨plain_eq, coloured.left_graphic⟩

end Graph

end SmallC
