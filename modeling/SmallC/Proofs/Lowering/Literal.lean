import SmallC.Proofs.Lowering.Scoping
import SmallC.Proofs.Parse.Limits
import SmallC.Proofs.Semantics.Execution

/-!
# Values of literals

What a literal is worth is kept from the text to the instructions.  An accepted integer literal, or
its negative where a minus sign stands before it, fits into 32 bits, and the instructions that it is
lowered to leave exactly that number.  A character literal is worth the number of its character.
-/

namespace SmallC

/-! ## Integer literals -/

/-- An integer literal, with the minus sign before it if it stands after one. -/
def literalInPlace (place span opSpan : Span) : String × Bool → Expr
  | (text, true) => .unary span .negate opSpan (.literal ⟨.integer, text, place⟩)
  | (text, false) => .literal ⟨.integer, text, place⟩

/-- The number that an integer literal stands for, with the minus sign before it if it stands after
one. -/
def signedValue : String × Bool → Int
  | (text, true) => -Text.digitsValue text.toList
  | (text, false) => Text.digitsValue text.toList

/-- The instructions of an integer literal: a constant, which is copied and negated where a minus
sign stands before the literal. -/
def literalCode (negated : Bool) (value : Int32) (constant slot : Slot) : List Instruction :=
  if negated then
    [.loadConstant constant value, .copy slot constant, .unary .negate slot]
  else
    [.loadConstant slot value]

/-- Performs instructions one after another, as long as each goes on to the next. -/
def Execution.performAll : List Instruction → Store → Option Store
  | [], store => some store
  | instruction :: others, store =>
    match perform store instruction with
    | some (.proceed next) => performAll others next
    | _ => none

/-- The instructions of the current block. -/
def Graph.instructionsHere (graph : Graph) : List Instruction :=
  (graph.blocks.get? graph.current).elim [] BasicBlock.instructions

theorem Graph.instructionsHere_extended {graph : Graph} (known : graph.HasBlock graph.current)
    (instruction : Instruction) :
    (graph.extended instruction).instructionsHere = graph.instructionsHere ++ [instruction] := by
  obtain ⟨block, found⟩ := exists_block known
  simp [instructionsHere, get?_changed_self, found]

/-- An integer literal is lowered wherever there is room, to a constant that is negated after a
minus sign, and performing that leaves exactly the number that was written. -/
structure KeepsValue (entry : String × Bool) : Prop where
  lowers : ∀ place span opSpan defined graph, graph.HasBlock graph.current →
    graph.CanTakeTemporary → graph.withTemporary.CanTakeTemporary →
      ∃ slot next, Lowering.lowerExpr defined (literalInPlace place span opSpan entry) graph =
        .ok (slot, next)
  leaves : ∀ place span opSpan defined graph slot next,
    Lowering.lowerExpr defined (literalInPlace place span opSpan entry) graph = .ok (slot, next) →
      ∃ value constant,
        next.instructionsHere = graph.instructionsHere ++ literalCode entry.2 value constant slot ∧
        ∀ store, ∃ final,
          Execution.performAll (literalCode entry.2 value constant slot) store = some final ∧
            (final slot).toInt = signedValue entry

/-- The value of a literal within the limit of its place, negated after a minus sign, is the number
that was written.  The magnitude `2 ^ 31` is kept as its negative, which is its own negative. -/
theorem exists_value_of_fitsPlace {text : String} {negated : Bool}
    (fits : FitsPlace (text, negated)) :
    ∃ value, (∀ place, Literal.value ⟨.integer, text, place⟩ = .ok value) ∧
      (if negated then UnaryOp.negate.apply value else value).toInt =
        signedValue (text, negated) := by
  obtain ⟨nonempty, digits, bounded⟩ := fits
  dsimp only at nonempty digits bounded
  refine ⟨Int32.ofNat (Text.digitsValue text.toList), ?_, ?_⟩
  · intro place
    have small := bounded.trans (literalLimit_le negated)
    exact IntegerLiteral.value_digits nonempty digits (Nat.lt_of_le_of_lt small (by decide))
  · cases negated with
    | false => exact Int32.toInt_ofNat_of_lt (Nat.lt_of_le_of_lt bounded (by decide))
    | true =>
      have small := bounded.trans (literalLimit_le true)
      rw [signedValue, if_pos rfl, UnaryOp.apply, Int32.neg_ofNat]
      exact Int32.toInt_ofInt_of_le (by omega) (by omega)

theorem performAll_literalCode (negated : Bool) (value : Int32) (constant slot : Slot)
    (store : Execution.Store) :
    ∃ final, Execution.performAll (literalCode negated value constant slot) store = some final ∧
      final slot = if negated then UnaryOp.negate.apply value else value := by
  cases negated with
  | false => exact ⟨_, rfl, Function.update_self _ _ _⟩
  | true =>
    refine ⟨_, rfl, ?_⟩
    simp

/-- Literals within the limits of their places keep their values. -/
theorem keepsValue_of_fitsPlace {entry : String × Bool} (fits : FitsPlace entry) :
    KeepsValue entry := by
  obtain ⟨text, negated⟩ := entry
  obtain ⟨value, value_eq, signed_eq⟩ := exists_value_of_fitsPlace fits
  have performed (constant slot : Slot) (store : Execution.Store) :
      ∃ final, Execution.performAll (literalCode negated value constant slot) store = some final ∧
        (final slot).toInt = signedValue (text, negated) := by
    obtain ⟨final, performed, final_eq⟩ := performAll_literalCode negated value constant slot store
    exact ⟨final, performed, by rw [final_eq, signed_eq]⟩
  cases negated with
  | false =>
    constructor
    · intro place _ _ defined graph known can _
      exact ⟨_, _, Lowering.lowerExpr_literal_eq_ok_iff.mpr
        ⟨value, value_eq place, Lowering.constant_eq_ok_iff.mpr ⟨can, known, rfl, rfl⟩⟩⟩
    · intro place _ _ defined graph slot next lowered
      obtain ⟨_, found_eq, constant_eq⟩ := Lowering.lowerExpr_literal_eq_ok_iff.mp lowered
      cases (value_eq place).symm.trans found_eq
      obtain ⟨-, known, -, rfl⟩ := Lowering.constant_eq_ok_iff.mp constant_eq
      exact ⟨value, slot, Graph.instructionsHere_extended known _, performed slot slot⟩
  | true =>
    constructor
    · intro place _ _ defined graph known can canAgain
      exact ⟨_, _, Lowering.lowerExpr_unary_eq_ok_iff.mpr ⟨_, _,
        Lowering.lowerExpr_literal_eq_ok_iff.mpr
          ⟨value, value_eq place, Lowering.constant_eq_ok_iff.mpr ⟨can, known, rfl, rfl⟩⟩,
        ⟨canAgain.free, canAgain.visible, canAgain.fits⟩, Graph.hasBlock_changed.mpr known, rfl,
        rfl⟩⟩
    · intro place _ _ defined graph slot next lowered
      obtain ⟨constant, middle, operand_eq, -, stillKnown, -, rfl⟩ :=
        Lowering.lowerExpr_unary_eq_ok_iff.mp lowered
      obtain ⟨_, found_eq, constant_eq⟩ := Lowering.lowerExpr_literal_eq_ok_iff.mp operand_eq
      cases (value_eq place).symm.trans found_eq
      obtain ⟨-, known, -, middle_eq⟩ := Lowering.constant_eq_ok_iff.mp constant_eq
      have loaded : middle.instructionsHere =
          graph.instructionsHere ++ [.loadConstant constant value] := by
        rw [middle_eq]
        exact Graph.instructionsHere_extended known _
      have copied : (middle.withTemporary.extended (.copy slot constant)).instructionsHere =
          middle.instructionsHere ++ [.copy slot constant] :=
        Graph.instructionsHere_extended stillKnown _
      have negated : ((middle.withTemporary.extended (.copy slot constant)).extended
            (.unary .negate slot)).instructionsHere =
          (middle.withTemporary.extended (.copy slot constant)).instructionsHere ++
            [.unary .negate slot] :=
        Graph.instructionsHere_extended (Graph.hasBlock_changed.mpr stillKnown) _
      refine ⟨value, constant, ?_, performed constant slot⟩
      rw [negated, copied, loaded]
      simp [literalCode]

/-! ## Character literals -/

/-- The numbers that letters and zero stand for after a backslash. -/
def escapeCodes : List (Char × Nat) :=
  [('n', 10), ('t', 9), ('r', 13), ('0', 0), ('a', 7), ('b', 8), ('f', 12), ('v', 11)]

/-- The number that a character stands for after a backslash: its own, if there is no other. -/
def escapeCode (c : Char) : Nat :=
  (escapeCodes.lookup c).getD c.toNat

theorem toNat_escaped (c : Char) : (CharLiteral.escaped c).toNat = escapeCode c := by
  unfold CharLiteral.escaped
  split
  case h_9 notN notT notR notZero notA notB notF notV =>
    have unlisted : escapeCodes.lookup c = none := by
      simpa [escapeCodes, List.lookup_eq_none_iff] using
        ⟨notN, notT, notR, notZero, notA, notB, notF, notV⟩
    rw [escapeCode, unlisted, Option.getD_none]
  all_goals rfl

/-- A character literal is one character between quotes, or a backslash and any one character. -/
inductive Quotes : List Char → Nat → Prop
  | plain {c : Char} : c ≠ '\\' → c ≠ '\'' → c ≠ '\n' → Quotes ['\'', c, '\''] c.toNat
  | escape (c : Char) : Quotes ['\'', '\\', c, '\''] (escapeCode c)

theorem chars_of_count_eq_zero {body : List Char} (closed : (Piece.charBody body).closed = true)
    (count_eq : (Piece.charBody body).count = 0) : (Piece.charBody body).chars = ['\''] := by
  fun_cases Piece.charBody body <;> simp_all [Piece.charBody]

/-- A character literal quotes one character. -/
theorem exists_quotes {text : String} (isLiteral : isCharLiteral text) :
    ∃ code, Quotes text.toList code := by
  obtain ⟨body, text_eq, closed, count_eq⟩ := isLiteral
  rw [text_eq]
  clear text_eq
  fun_induction Piece.charBody body with
  | case1 | case2 => cases closed
  | case3 => cases count_eq
  | case4 => cases closed
  | case5 c rest inner _ =>
    have ends := chars_of_count_eq_zero closed (Nat.succ.inj count_eq)
    exact ⟨_, by simpa [inner, ends] using Quotes.escape c⟩
  | case6 c rest noNewline noQuote noEnd noPair inner _ =>
    have ends := chars_of_count_eq_zero closed (Nat.succ.inj count_eq)
    have noEscape : c ≠ '\\' := by
      intro escape
      cases rest with
      | nil => exact noEnd escape rfl
      | cons next more => exact noPair next more escape rfl
    exact ⟨_, by simpa [inner, ends] using Quotes.plain noEscape noQuote noNewline⟩

/-- The number of a character fits into 32 bits. -/
theorem toInt_ofNat_toNat (c : Char) : (Int32.ofNat c.toNat).toInt = c.toNat := by
  have valid := c.valid
  simp only [UInt32.isValidChar, Nat.isValidChar] at valid
  exact Int32.toInt_ofNat_of_lt (by unfold Char.toNat; omega)

/-- The value of a character literal is the number of the character that it quotes. -/
theorem value_of_quotes {text : List Char} {code : Nat} (quotes : Quotes text code) :
    ∃ value, CharLiteral.value text = .ok value ∧ value.toInt = code := by
  cases quotes with
  | @plain c noEscape _ _ =>
    refine ⟨Int32.ofNat c.toNat, ?_, toInt_ofNat_toNat c⟩
    have unquoted_eq : CharLiteral.unquoted ['\'', c, '\''] = [c] := rfl
    have denoted_eq : CharLiteral.denoted? [c] = some c := by
      simp [CharLiteral.denoted?, noEscape]
    rw [CharLiteral.value, unquoted_eq, denoted_eq]
  | escape c =>
    refine ⟨Int32.ofNat (CharLiteral.escaped c).toNat, rfl, ?_⟩
    rw [toInt_ofNat_toNat, toNat_escaped]

/-! ## From text to instructions -/

/-- Literals keep their values from the text to the instructions.  A text that writes a program
which is grammatical but for the size of its integers is accepted exactly when its integer literals,
of any length, are at most `2 ^ 31` after a minus sign and at most `2 ^ 31 - 1` elsewhere.  Lowering
an accepted literal, with its minus sign, leaves the number that was written.  A character literal is
worth the number of the character or escape that it quotes. -/
theorem literals_keep_values (text : List Char) :
    (∀ (program : Program) (tokens : List Token), program.zeroed.Grammatical →
      lexItems text = tokens.map .ok → Writes program.written (tokens.map Token.lexeme) →
        program.integers.map Prod.fst = integerTexts tokens ∧
        ((∃ read, parseProgram text = .ok read) ↔
          ∀ entry ∈ program.integers, Text.digitsValue entry.1.toList ≤ literalLimit entry.2)) ∧
    (∀ program, parseProgram text = .ok program →
      ∃ tokens : List Token, lexItems text = tokens.map .ok ∧
        program.integers.map Prod.fst = integerTexts tokens ∧
        ∀ entry ∈ program.integers,
          Text.digitsValue entry.1.toList ≤ literalLimit entry.2 ∧ KeepsValue entry) ∧
    ∀ token, .ok token ∈ lexItems text → token.kind = .charLiteral →
      ∃ code value, Quotes token.text.toList code ∧
        CharLiteral.value token.text.toList = .ok value ∧ value.toInt = code := by
  refine ⟨fun program tokens shape items_eq writes => ?_, fun program parsed => ?_,
    fun token found kind_eq => ?_⟩
  · exact ⟨Program.literalTexts_integers writes, Program.exists_parse_iff shape items_eq writes⟩
  · obtain ⟨grammatical, lexemes, writes, spelt⟩ := Program.spells_of_parse parsed
    obtain ⟨tokens, items_eq, rfl⟩ := spelt.exists_tokens
    refine ⟨tokens, items_eq, Program.literalTexts_integers writes, fun entry member => ?_⟩
    have fits := ((Program.grammatical_iff program).mp grammatical).2 entry member
    exact ⟨fits.2.2, keepsValue_of_fitsPlace fits⟩
  · have sound := soundItems_lexItems text token found
    obtain ⟨code, quotes⟩ := exists_quotes (sound.isCharLiteral kind_eq)
    obtain ⟨value, value_eq, toInt_eq⟩ := value_of_quotes quotes
    exact ⟨code, value, quotes, value_eq, toInt_eq⟩

/-- A function that returns a sum of literals, the first of them after a minus sign. -/
def sumProgram (negated plain : String) : Program :=
  let here := Span.point 0
  let first : Expr := .unary here .negate here (.literal ⟨.integer, negated, here⟩)
  let second : Expr := .literal ⟨.integer, plain, here⟩
  let third : Expr := .literal ⟨.character, "'\\t'", here⟩
  let sum : Expr :=
    .binary here (.arithmetic .add) here (.binary here (.arithmetic .add) here first second) third
  ⟨[⟨here, .int, ⟨"f", here⟩, [], ⟨here, [.returnValue here (some sum)]⟩⟩], 0⟩

theorem grammatical_zeroed_sumProgram (negated plain : String) :
    (sumProgram negated plain).zeroed.Grammatical := by
  have f : Ident.Grammatical ⟨"f", .point 0⟩ := ⟨by decide, by decide⟩
  have least : Literal.Grammatical UnaryOp.negate.largestOperand ⟨.integer, "0", .point 0⟩ :=
    fitsPlace_zero true
  have zero : Literal.Grammatical largestLiteral ⟨.integer, "0", .point 0⟩ := fitsPlace_zero false
  have tab : Literal.Grammatical largestLiteral ⟨.character, "'\\t'", .point 0⟩ :=
    ⟨['\\', 't', '\''], by decide, by decide, by decide⟩
  refine List.forall_mem_singleton.mpr ⟨f, List.forall_mem_nil _, ?_⟩
  simp [Stmt.allZeroed, Stmt.zeroed, Expr.zeroed, Literal.zeroed, Stmt.AllGrammatical,
    Stmt.Grammatical, Expr.GrammaticalUpTo, Expr.level, BinaryOp.rank, least, zero, tab]

/-- A sum with the least number, zeros before it, and with the largest one. -/
def extremeSum : List Char :=
  "int f()\x7breturn -0002147483648+2147483647+'\\t';\x7d".toList

/-- The same with a number that is too large where no minus sign stands before it. -/
def excessiveSum : List Char :=
  "int f()\x7breturn -2147483648+2147483648+'\\t';\x7d".toList

/-- The tokens among the items of a text. -/
def tokensOf (text : List Char) : List Token :=
  (lexItems text).filterMap Except.toOption

theorem literals_keep_values_extremes :
    (∃ program, parseProgram extremeSum = .ok program ∧
      program.integers.map Prod.fst = ["0002147483648", "2147483647"] ∧
      ∀ entry ∈ program.integers,
        Text.digitsValue entry.1.toList ≤ literalLimit entry.2 ∧ KeepsValue entry) ∧
    (¬∃ program, parseProgram excessiveSum = .ok program) ∧
    ∃ code value, Quotes "'\\t'".toList code ∧
      CharLiteral.value "'\\t'".toList = .ok value ∧ value.toInt = code := by
  have writes {text : List Char} {program : Program}
      (lexemes_eq : (tokensOf text).map Token.lexeme = lexemesOf program.written) :
      Writes program.written ((tokensOf text).map Token.lexeme) :=
    lexemes_eq ▸ writes_lexemesOf program.written
  refine ⟨?extreme, ?excessive, ?character⟩
  case extreme =>
    have items_eq : lexItems extremeSum = (tokensOf extremeSum).map .ok := by cbv
    obtain ⟨texts_eq, accepted_iff⟩ := (literals_keep_values extremeSum).1
      (sumProgram "0002147483648" "2147483647") _ (grammatical_zeroed_sumProgram _ _) items_eq
      (writes (by cbv))
    obtain ⟨program, parsed⟩ := accepted_iff.mpr (by decide)
    obtain ⟨tokens, again_eq, same_eq, keep⟩ := (literals_keep_values extremeSum).2.1 program parsed
    obtain rfl : tokens = tokensOf extremeSum :=
      List.map_injective_iff.mpr (fun _ _ => Except.ok.inj) (again_eq.symm.trans items_eq)
    exact ⟨program, parsed, same_eq.trans texts_eq.symm, keep⟩
  case excessive =>
    have items_eq : lexItems excessiveSum = (tokensOf excessiveSum).map .ok := by cbv
    obtain ⟨-, accepted_iff⟩ := (literals_keep_values excessiveSum).1
      (sumProgram "2147483648" "2147483648") _ (grammatical_zeroed_sumProgram _ _) items_eq
      (writes (by cbv))
    rw [accepted_iff]
    decide
  case character =>
    have found : (lexItems extremeSum)[11]? =
        some (.ok ⟨.charLiteral, ⟨41, 45⟩, "'\\t'"⟩) := by cbv
    exact (literals_keep_values extremeSum).2.2 _ (List.mem_of_getElem? found) rfl

end SmallC
