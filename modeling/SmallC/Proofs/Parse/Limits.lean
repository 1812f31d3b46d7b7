import SmallC.Proofs.Parse.Grammatical
import SmallC.Proofs.Parse.RoundTrip
import SmallC.Proofs.Tree.Integers

/-!
# Limits of integer literals

Whether a text is accepted depends on the size of its integer literals only through the limits of
their places.  A text that writes a program which is grammatical but for the size of its integers is
accepted exactly when each of them is within its limit.  Such a text can be read in no other way: with
zero for every integer it writes two grammatical programs, and what writes a grammatical program is
read back as that program.
-/

namespace SmallC

/-- The texts of the integer literals among tokens. -/
def integerTexts (tokens : List Token) : List String :=
  (tokens.filter fun token => token.kind = .integerLiteral).map Token.text

theorem integerTexts_eq (tokens : List Token) :
    integerTexts tokens = (tokens.map Token.lexeme).flatMap Lexeme.integers := by
  induction tokens with
  | nil => rfl
  | cons token others ih =>
    rw [List.map_cons, List.flatMap_cons, ← ih]
    by_cases isInteger : token.kind = .integerLiteral <;>
      simp [integerTexts, Lexeme.integers, Token.lexeme, isInteger]

variable {program : Program} {tokens : List Token}

/-- The integers of a program are those of the tokens that write it. -/
theorem Program.literalTexts_integers (writes : Writes program.written (tokens.map Token.lexeme)) :
    literalTexts program.integers = integerTexts tokens := by
  rw [integerTexts_eq, writes.integers, integers_written]

theorem spelt_tokens (tokens : List Token) :
    Spelt (tokens.map Token.lexeme) (tokens.map .ok) [] := by
  induction tokens with
  | nil => rfl
  | cons token others ih => exact ⟨token, _, rfl, rfl, ih⟩

/-- Programs that the same tokens write, and that are grammatical with zero for every integer, have
the same integers. -/
theorem Program.integers_eq_of_writes {other : Program} (shape : program.zeroed.Grammatical)
    (otherShape : other.zeroed.Grammatical)
    (writes : Writes program.written (tokens.map Token.lexeme))
    (otherWrites : Writes other.written (tokens.map Token.lexeme)) :
    program.integers = other.integers := by
  have texts_eq := (literalTexts_integers writes).trans (literalTexts_integers otherWrites).symm
  refine integers_eq ?_ texts_eq
  let zeros := tokens.map fun token => token.lexeme.zeroed.token token.span
  have lexemes_eq : zeros.map Token.lexeme = (tokens.map Token.lexeme).map Lexeme.zeroed := by
    simp [zeros, Lexeme.token, Token.lexeme]
  have spells {given : Program} (writes : Writes given.written (tokens.map Token.lexeme)) :
      Spells given.zeroed.written (zeros.map .ok) [] := by
    rw [written_zeroed]
    exact ⟨_, writes.zeroed, lexemes_eq ▸ spelt_tokens zeros⟩
  have reading := Parse.functionDefs_readsBack shape (spells writes)
  have otherReading := Parse.functionDefs_readsBack otherShape (spells otherWrites)
  cases read : Parse.functionDefs (zeros.map .ok) with
  | error failure =>
    rw [read] at reading
    exact reading.elim
  | ok functions =>
    rw [read] at reading otherReading
    exact congrArg (Program.mk · 0) (reading.symm.trans otherReading)

/-- Integer literals of sound tokens are strings of digits. -/
theorem digits_of_mem_integers {text : List Char} (items_eq : lexItems text = tokens.map .ok)
    (writes : Writes program.written (tokens.map Token.lexeme)) {entry : String × Bool}
    (member : entry ∈ program.integers) :
    entry.1.toList ≠ [] ∧ entry.1.toList.all Char.isDigit = true := by
  have written : entry.1 ∈ integerTexts tokens := by
    rw [← Program.literalTexts_integers writes]
    exact List.mem_map_of_mem member
  obtain ⟨token, found, text_eq⟩ := List.mem_map.mp written
  rw [List.mem_filter, decide_eq_true_iff] at found
  have sound := soundItems_lexItems text token (items_eq ▸ List.mem_map_of_mem found.1)
  rw [← text_eq]
  exact sound.digits found.2

/-- A text that writes a program which is grammatical but for the size of its integers is accepted
exactly when each integer is within the limit of its place. -/
theorem Program.exists_parse_iff {text : List Char} (shape : program.zeroed.Grammatical)
    (items_eq : lexItems text = tokens.map .ok)
    (writes : Writes program.written (tokens.map Token.lexeme)) :
    (∃ read, parseProgram text = .ok read) ↔
      ∀ entry ∈ program.integers, Text.digitsValue entry.1.toList ≤ literalLimit entry.2 := by
  constructor
  · rintro ⟨read, parsed⟩
    obtain ⟨grammatical, lexemes, readWrites, spelt⟩ := spells_of_parse parsed
    obtain ⟨others, others_eq, rfl⟩ := spelt.exists_tokens
    obtain rfl : others = tokens :=
      List.map_injective_iff.mpr (fun _ _ => Except.ok.inj) (others_eq.symm.trans items_eq)
    obtain ⟨readShape, fits⟩ := (grammatical_iff read).mp grammatical
    rw [integers_eq_of_writes shape readShape writes readWrites]
    exact fun entry member => (fits entry member).2.2
  · intro within
    have grammatical : program.Grammatical := (grammatical_iff program).mpr ⟨shape,
      fun entry member =>
        have digits := digits_of_mem_integers items_eq writes member
        ⟨digits.1, digits.2, within entry member⟩⟩
    have spells : Spells program.written (lexItems text) [] :=
      ⟨_, writes, items_eq ▸ spelt_tokens tokens⟩
    obtain ⟨read, parsed, -⟩ := exists_parse_of_spells grammatical spells
    exact ⟨read, parsed⟩

end SmallC
