import SmallC.Proofs.Parse.Spelling
import SmallC.Proofs.Token.Coverage

/-!
# Longest punctuators and respaced texts

Where punctuators compete, the longest one that the text starts with is read, unless the text opens
a comment there.  A text without a malformed stretch may be written anew with one space between any
two of its tokens: it is read as the same tokens.
-/

namespace SmallC

/-! ## Longest punctuators -/

namespace Punctuator

variable {text : List Char} {punctuator : Punctuator}

/-- A text starts with a punctuator and with no longer one. -/
structure LongestAt (punctuator : Punctuator) (text : List Char) : Prop where
  starts : punctuator.spelling <+: text
  longest : ∀ other : Punctuator, other.spelling <+: text →
    other.spelling.length ≤ punctuator.spelling.length

theorem longest?_spelling (punctuator : Punctuator) :
    longest? punctuator.spelling = some punctuator := by
  cases punctuator <;> rfl

theorem spelling_injective : Function.Injective spelling := by
  intro first second same
  have found := longest?_spelling first
  rw [same, longest?_spelling, Option.some.injEq] at found
  exact found.symm

/-- Longer punctuators are tried before shorter ones. -/
theorem pairwise_all :
    all.Pairwise fun first second => second.spelling.length ≤ first.spelling.length := by
  decide

theorem longestAt_of_longest? (found : longest? text = some punctuator) : punctuator.LongestAt text := by
  obtain ⟨starts, before, after, all_eq, passed⟩ := List.find?_eq_some_iff_append.mp found
  refine ⟨List.isPrefixOf_iff_prefix.mp starts, fun other fits => ?_⟩
  have ordered := pairwise_all
  have listed := mem_all other
  rw [all_eq, List.mem_append, List.mem_cons] at listed
  rw [all_eq, List.pairwise_append, List.pairwise_cons] at ordered
  rcases listed with earlier | rfl | later
  · have skipped := passed other earlier
    rw [List.isPrefixOf_iff_prefix.mpr fits] at skipped
    contradiction
  · exact Nat.le_refl _
  · exact ordered.2.1.1 other later

theorem LongestAt.eq {first second : Punctuator} (firstLongest : first.LongestAt text)
    (secondLongest : second.LongestAt text) :
    first = second := by
  have shorter := secondLongest.longest first firstLongest.starts
  have longer := firstLongest.longest second secondLongest.starts
  have same := List.prefix_of_prefix_length_le firstLongest.starts secondLongest.starts shorter
  exact spelling_injective (same.eq_of_length (Nat.le_antisymm shorter longer))

theorem longest?_eq_some_iff : longest? text = some punctuator ↔ punctuator.LongestAt text := by
  refine ⟨longestAt_of_longest?, fun longest => ?_⟩
  cases found : longest? text with
  | none =>
    have unfit := List.find?_eq_none.mp found punctuator (mem_all punctuator)
    exact absurd (List.isPrefixOf_iff_prefix.mpr longest.starts) unfit
  | some other => rw [(longestAt_of_longest? found).eq longest]

end Punctuator

namespace Piece

variable {c : Char} {rest : List Char} {punctuator : Punctuator}

/-- A text opens a comment, which ends with the line or where it is closed. -/
def OpensComment (text : List Char) : Prop :=
  ['/', '/'] <+: text ∨ ['/', '*'] <+: text

/-- The character that a punctuator starts with starts nothing else, but for comments. -/
theorem cut_of_spelling {others : List Char} (spelling_eq : punctuator.spelling = c :: others)
    (rest : List Char) :
    cut c rest = if c = '/' then slash rest else mark c rest := by
  have classes : ¬0x7f < c.toNat ∧ ¬isSpace c = true ∧ c ≠ '#' ∧ c ≠ '\'' ∧
      ¬c.isDigit = true ∧ ¬isWordStart c = true := by
    cases punctuator <;> cases spelling_eq <;> decide
  obtain ⟨ascii, space, hash, quote, digit, start⟩ := classes
  rw [cut, if_neg ascii, if_neg space, if_neg hash, if_neg quote, if_neg digit, if_neg start]

theorem mark_sort_eq_iff :
    (mark c rest).sort = .token (.punctuator punctuator) ↔
      punctuator.LongestAt (c :: rest) := by
  rw [← Punctuator.longest?_eq_some_iff, mark]
  split <;> simp_all

theorem slash_sort_eq_iff :
    (slash rest).sort = .token (.punctuator punctuator) ↔
      punctuator.LongestAt ('/' :: rest) ∧ ¬OpensComment ('/' :: rest) := by
  unfold slash
  split
  case h_1 more => simp [OpensComment, run]
  case h_2 more =>
    unfold blockComment
    split <;> simp [OpensComment]
  case h_3 notLine notComment =>
    have plain : ¬OpensComment ('/' :: rest) := by
      rintro (⟨more, text_eq⟩ | ⟨more, text_eq⟩)
      · exact notLine more (List.cons.inj text_eq).2.symm
      · exact notComment more (List.cons.inj text_eq).2.symm
    rw [mark_sort_eq_iff, and_iff_left plain]

theorem charLiteral_ne_punctuator (text : List Char) (punctuator : Punctuator) :
    (charLiteral text).sort ≠ .token (.punctuator punctuator) := by
  unfold charLiteral
  dsimp only
  split_ifs <;> nofun

theorem number_ne_punctuator (text : List Char) (punctuator : Punctuator) :
    (number text).sort ≠ .token (.punctuator punctuator) := by
  unfold number
  split
  · simp
  · split_ifs <;> simp

theorem word_ne_punctuator (text : List Char) (punctuator : Punctuator) :
    (word text).sort ≠ .token (.punctuator punctuator) := by
  unfold word wordKind
  dsimp only
  split <;> nofun

/-- A punctuator is read where it is the longest one, and nowhere else. -/
theorem cut_sort_eq_iff :
    (cut c rest).sort = .token (.punctuator punctuator) ↔
      punctuator.LongestAt (c :: rest) ∧ ¬OpensComment (c :: rest) := by
  constructor
  · intro sort_eq
    have starts := starts_cut c rest
    generalize cut c rest = piece at *
    cases starts with
    | nonAscii | space _ | hash _ => cases sort_eq
    | slash isSlash => exact isSlash ▸ slash_sort_eq_iff.mp sort_eq
    | quote _ => exact absurd sort_eq (charLiteral_ne_punctuator _ _)
    | digit _ => exact absurd sort_eq (number_ne_punctuator _ _)
    | word _ => exact absurd sort_eq (word_ne_punctuator _ _)
    | mark notSlash =>
      refine ⟨mark_sort_eq_iff.mp sort_eq, ?_⟩
      rintro (opens | opens) <;>
        exact notSlash (List.cons_prefix_cons.mp opens).1.symm
  · rintro ⟨longest, plain⟩
    obtain ⟨first, others, spelling_eq⟩ := List.exists_cons_of_ne_nil punctuator.spelling_ne_nil
    have starts := longest.starts
    rw [spelling_eq, List.cons_prefix_cons] at starts
    rw [starts.1] at spelling_eq
    rw [cut_of_spelling spelling_eq]
    split
    · rename_i isSlash
      subst isSlash
      exact slash_sort_eq_iff.mpr ⟨longest, plain⟩
    · exact mark_sort_eq_iff.mpr longest

theorem kind_of_item? {piece : Piece} {offset : Nat} {token : Token}
    (found : piece.item? offset = some (.ok token)) : piece.sort = .token token.kind := by
  obtain ⟨sort, chars, rest⟩ := piece
  cases sort <;> cases found
  rfl

end Piece

/-- A punctuator among the items of a text is the longest one where it stands. -/
theorem longestAt_of_mem_lexItems {text : List Char} {token : Token} {punctuator : Punctuator}
    (found : .ok token ∈ lexItems text) (kind_eq : token.kind = .punctuator punctuator) :
    token.text.toList = punctuator.spelling ∧
      ∃ before after, text = before ++ after ∧ Text.byteLength before = token.span.start ∧
        punctuator.LongestAt after := by
  have sound := soundItems_lexItems text token found
  rw [Token.Sound, Lexeme.Sound, Token.lexeme, kind_eq] at sound
  refine ⟨sound, ?_⟩
  obtain ⟨before, c, after, text_eq, cut_eq⟩ := exists_cut_of_mem_lexItems found
  have sort_eq := Piece.kind_of_item? cut_eq
  rw [kind_eq] at sort_eq
  have span_eq : token.span = ⟨_, _⟩ := Piece.span_of_item? cut_eq
  exact ⟨before, c :: after, text_eq, by rw [span_eq], (Piece.cut_sort_eq_iff.mp sort_eq).1⟩

/-! ## Respaced texts -/

/-- The tokens of a text, written with a space between any two, are read back. -/
theorem lexItems_spaced {text : List Char} {tokens : List Token}
    (items_eq : lexItems text = tokens.map .ok) :
    ∃ again : List Token, lexItems (spaced (tokens.map Token.lexeme)) = again.map .ok ∧
      again.map Token.lexeme = tokens.map Token.lexeme := by
  have sound : ∀ lexeme ∈ tokens.map Token.lexeme, lexeme.Sound := by
    rw [List.forall_mem_map]
    intro token member
    exact soundItems_lexItems text token (items_eq ▸ List.mem_map_of_mem member)
  exact (spelt_spaced sound).exists_tokens

/-- A text without a malformed stretch keeps its tokens when it is written with one space between
any two of them.  A punctuator is read exactly where no comment opens and a punctuator fits, and
then the longest that fits is read. -/
theorem respacing_keeps_lexemes (text : List Char) :
    (∀ tokens : List Token, lexItems text = tokens.map .ok →
      ∃ again : List Token, lexItems (spaced (tokens.map Token.lexeme)) = again.map .ok ∧
        again.map Token.lexeme = tokens.map Token.lexeme) ∧
    (∀ token punctuator, .ok token ∈ lexItems text → token.kind = .punctuator punctuator →
      token.text.toList = punctuator.spelling ∧
        ∃ before after, text = before ++ after ∧ Text.byteLength before = token.span.start ∧
          punctuator.LongestAt after) ∧
    ∀ c rest punctuator, (Piece.cut c rest).sort = .token (.punctuator punctuator) ↔
      punctuator.LongestAt (c :: rest) ∧ ¬Piece.OpensComment (c :: rest) :=
  ⟨fun _ => lexItems_spaced, fun _ _ => longestAt_of_mem_lexItems,
    fun _ _ _ => Piece.cut_sort_eq_iff⟩

/-- Tokens that stand close together, with a comment between two of them and a quote inside quotes. -/
theorem respacing_keeps_lexemes_close :
    ∃ tokens again : List Token,
      lexItems ['a', '<', '<', '=', 'b', '/', '*', '*', '/', '-', '\'', '\\', '\'', '\''] =
        tokens.map .ok ∧
      spaced (tokens.map Token.lexeme) =
        ['a', ' ', '<', '<', '=', ' ', 'b', ' ', '-', ' ', '\'', '\\', '\'', '\''] ∧
      lexItems (spaced (tokens.map Token.lexeme)) = again.map .ok ∧
      again.map Token.lexeme = tokens.map Token.lexeme := by
  have items_eq :
      lexItems ['a', '<', '<', '=', 'b', '/', '*', '*', '/', '-', '\'', '\\', '\'', '\''] =
        [⟨.identifier, ⟨0, 1⟩, "a"⟩, ⟨.punctuator .shiftLeftEqual, ⟨1, 4⟩, "<<="⟩,
          ⟨.identifier, ⟨4, 5⟩, "b"⟩, ⟨.punctuator .minus, ⟨9, 10⟩, "-"⟩,
          ⟨.charLiteral, ⟨10, 14⟩, "'\\''"⟩].map .ok := by
    cbv
  obtain ⟨again, again_eq, lexemes_eq⟩ := (respacing_keeps_lexemes _).1 _ items_eq
  exact ⟨_, again, items_eq, by cbv, again_eq, lexemes_eq⟩

end SmallC
