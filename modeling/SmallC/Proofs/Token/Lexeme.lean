import SmallC.Proofs.Tree.WellFormed

/-!
# Tokens without places

A lexeme is a token without its span: its kind and its text.  The lexemes of a text are sound, since
their text is of the kind that they say, and every list of sound lexemes is the list of lexemes of a
text: write them with a space between any two.
-/

namespace SmallC

/-- The kind and the text of a token. -/
structure Lexeme where
  kind : TokenKind
  text : String
  deriving DecidableEq, Repr

/-- A token without its place. -/
def Token.lexeme (token : Token) : Lexeme :=
  ⟨token.kind, token.text⟩

namespace Lexeme

/-- A reserved word as a lexeme. -/
def keyword (word : Keyword) : Lexeme :=
  ⟨.keyword word, String.ofList word.spelling⟩

/-- A punctuator as a lexeme. -/
def mark (punctuator : Punctuator) : Lexeme :=
  ⟨.punctuator punctuator, String.ofList punctuator.spelling⟩

/-- The text of a lexeme is of its kind: names are words that are not reserved, integer literals are
digits, and reserved words and punctuators are written as they are. -/
def Sound (lexeme : Lexeme) : Prop :=
  match lexeme.kind with
  | .keyword word => lexeme.text.toList = word.spelling
  | .identifier => isWord lexeme.text = true ∧ Keyword.ofSpelling? lexeme.text.toList = none
  | .integerLiteral => lexeme.text.toList ≠ [] ∧ lexeme.text.toList.all Char.isDigit = true
  | .charLiteral => isCharLiteral lexeme.text
  | .punctuator punctuator => lexeme.text.toList = punctuator.spelling

theorem sound_keyword (word : Keyword) : (keyword word).Sound :=
  String.toList_ofList

theorem sound_mark (punctuator : Punctuator) : (mark punctuator).Sound :=
  String.toList_ofList

/-- A sound lexeme of a reserved word is that word. -/
theorem Sound.eq_keyword {lexeme : Lexeme} {word : Keyword} (sound : lexeme.Sound)
    (kind_eq : lexeme.kind = .keyword word) : lexeme = keyword word := by
  obtain ⟨kind, text⟩ := lexeme
  cases kind_eq
  rw [keyword, ← show text.toList = word.spelling from sound, String.ofList_toList]

/-- A sound lexeme of a punctuator is that punctuator. -/
theorem Sound.eq_mark {lexeme : Lexeme} {punctuator : Punctuator} (sound : lexeme.Sound)
    (kind_eq : lexeme.kind = .punctuator punctuator) : lexeme = mark punctuator := by
  obtain ⟨kind, text⟩ := lexeme
  cases kind_eq
  rw [mark, ← show text.toList = punctuator.spelling from sound, String.ofList_toList]

end Lexeme

/-! ## Cutting a lexeme off a text -/

/-- What may follow a lexeme without becoming part of it: nothing, or a space. -/
def Parted (after : List Char) : Prop :=
  ∀ c ∈ after.head?, c = ' '

namespace Piece

variable {c : Char} {rest others after : List Char}

/-- The longest run of characters of a class that a space does not belong to. -/
theorem takeWhile_of_parted {belongs : Char → Bool} {chars : List Char}
    (all : chars.all belongs = true) (space : belongs ' ' = false) (parted : Parted after) :
    (chars ++ after).takeWhile belongs = chars ∧ (chars ++ after).dropWhile belongs = after := by
  rw [List.all_eq_true] at all
  rw [List.takeWhile_append_of_pos all, List.dropWhile_append_of_pos all]
  cases after with
  | nil => simp
  | cons c more =>
    cases parted c rfl
    simp [space]

theorem toNat_of_isWordStart (start : isWordStart c = true) : 65 ≤ c.toNat ∧ c.toNat ≤ 122 := by
  simp only [isWordStart, Char.isAlpha, Char.isUpper, Char.isLower, Bool.or_eq_true,
    Bool.and_eq_true, decide_eq_true_eq, ge_iff_le, UInt32.le_iff_toNat_le] at start
  rcases start with (⟨low, high⟩ | ⟨low, high⟩) | rfl
  · exact ⟨low, Nat.le_trans high (by decide)⟩
  · exact ⟨Nat.le_trans (by decide) low, high⟩
  · decide

theorem toNat_of_isDigit (digit : c.isDigit = true) : 48 ≤ c.toNat ∧ c.toNat ≤ 57 := by
  simp only [Char.isDigit, Bool.and_eq_true, decide_eq_true_eq, ge_iff_le,
    UInt32.le_iff_toNat_le] at digit
  exact digit

/-- The characters that start words and numbers start nothing else. -/
theorem cut_eq_of_bounds (low : 48 ≤ c.toNat) (high : c.toNat ≤ 122) (rest : List Char) :
    cut c rest = if c.isDigit then number (c :: rest)
      else if isWordStart c then word (c :: rest) else mark c rest := by
  have different (other : Char) (less : other.toNat < 48) : c ≠ other := by
    rintro rfl
    omega
  have ascii : ¬0x7f < c.toNat := by omega
  have space : isSpace c = false := by
    simp only [isSpace, different ' ' (by decide), different '\t' (by decide),
      different '\n' (by decide), different '\x0c' (by decide), different '\r' (by decide),
      decide_false, Bool.or_self]
  rw [cut, if_neg ascii, space, if_neg Bool.false_ne_true, if_neg (different '#' (by decide)),
    if_neg (different '/' (by decide)), if_neg (different '\'' (by decide))]

theorem cut_of_isDigit (digit : c.isDigit = true) : cut c rest = number (c :: rest) := by
  have bounds := toNat_of_isDigit digit
  rw [cut_eq_of_bounds bounds.1 (by omega), if_pos digit]

theorem cut_of_isWordStart (start : isWordStart c = true) : cut c rest = word (c :: rest) := by
  have bounds := toNat_of_isWordStart start
  have noDigit : ¬c.isDigit = true := by
    intro digit
    have := toNat_of_isDigit digit
    omega
  rw [cut_eq_of_bounds (by omega) bounds.2, if_neg noDigit, if_pos start]

/-- The first piece of a text that starts with a word and goes on with something else. -/
theorem cut_word (start : isWordStart c = true) (all : others.all isWordChar = true)
    (parted : Parted after) :
    cut c (others ++ after) = ⟨.token (wordKind (c :: others)), c :: others, after⟩ := by
  have allChars : (c :: others).all isWordChar = true := by
    simp [isWordChar, start, all]
  obtain ⟨taken, dropped⟩ := takeWhile_of_parted allChars (by decide) parted
  rw [cut_of_isWordStart start, word, ← List.cons_append, taken, dropped]

/-- The first piece of a text that starts with a number and goes on with something else. -/
theorem cut_number (all : (c :: others).all Char.isDigit = true) (parted : Parted after) :
    cut c (others ++ after) = ⟨.token .integerLiteral, c :: others, after⟩ := by
  obtain ⟨taken, dropped⟩ := takeWhile_of_parted all (by decide) parted
  have digit : c.isDigit = true := by simp_all
  rw [cut_of_isDigit digit, number, ← List.cons_append, taken, dropped]
  cases after with
  | nil => rfl
  | cons next more =>
    cases parted next rfl
    rfl

/-- A literal that is closed ends where it ended, whatever follows it. -/
theorem charBody_append_of_closed {body : List Char} (closed : (charBody body).closed = true) :
    charBody ((charBody body).chars ++ after) =
      ⟨(charBody body).chars, after, (charBody body).count, true⟩ := by
  fun_induction charBody body with
  | case1 | case2 => cases closed
  | case3 => rfl
  | case4 => cases closed
  | case5 c rest body ih =>
    simp only [List.cons_append]
    rw [charBody, ih closed]
  | case6 c rest noNewline noQuote noEnd noPair body ih =>
    have noEscape : c ≠ '\\' := by
      intro escape
      cases rest with
      | nil => exact noEnd escape rfl
      | cons next more => exact noPair next more escape rfl
    simp only [List.cons_append]
    rw [charBody, ih closed]
    · exact noNewline
    · exact noQuote
    · exact fun escape _ => noEscape escape
    · exact fun _ _ escape _ => noEscape escape

theorem cut_charLiteral {body : List Char} (closed : (charBody body).closed = true)
    (count_eq : (charBody body).count = 1) :
    cut '\'' ((charBody body).chars ++ after) =
      ⟨.token .charLiteral, '\'' :: (charBody body).chars, after⟩ := by
  have isLiteral : cut '\'' ((charBody body).chars ++ after) =
      charLiteral ((charBody body).chars ++ after) := rfl
  rw [isLiteral, charLiteral, charBody_append_of_closed closed]
  simp [count_eq]

/-- The first piece of a text that starts with a punctuator and goes on with a space. -/
theorem cut_mark {punctuator : Punctuator} (spelling_eq : punctuator.spelling = c :: others)
    (parted : Parted after) :
    cut c (others ++ after) = ⟨.token (.punctuator punctuator), c :: others, after⟩ := by
  cases after with
  | nil =>
    cases punctuator <;> cases spelling_eq <;> rfl
  | cons next more =>
    cases parted next rfl
    cases punctuator <;> cases spelling_eq <;> rfl

end Piece

namespace Lexeme

/-- A lexeme of a given text, at the head of a text, is its first piece. -/
def Cuts (kind : TokenKind) (text : List Char) : Prop :=
  ∃ c others, text = c :: others ∧ Piece.isSpace c = false ∧
    ∀ after, Parted after → Piece.cut c (others ++ after) = ⟨.token kind, c :: others, after⟩

theorem isSpace_eq_false {c : Char} (low : 48 ≤ c.toNat) : Piece.isSpace c = false := by
  rw [Bool.eq_false_iff]
  intro space
  simp only [Piece.isSpace, Bool.or_eq_true, decide_eq_true_eq] at space
  rcases space with (((rfl | rfl) | rfl) | rfl) | rfl <;> contradiction

theorem cuts_of_isWord {text : String} (word : isWord text = true) :
    Cuts (Piece.wordKind text.toList) text.toList := by
  unfold isWord at word
  cases text_eq : text.toList with
  | nil => simp [text_eq] at word
  | cons c others =>
    simp only [text_eq, Bool.and_eq_true] at word
    have bounds := Piece.toNat_of_isWordStart word.1
    exact ⟨c, others, rfl, isSpace_eq_false (by omega), fun after =>
      Piece.cut_word word.1 word.2⟩

theorem isWord_keyword (word : Keyword) : isWord (String.ofList word.spelling) = true := by
  cases word <;> rfl

/-- A sound lexeme is the first piece of a text that starts with it. -/
theorem Sound.cuts {lexeme : Lexeme} (sound : lexeme.Sound) :
    Cuts lexeme.kind lexeme.text.toList := by
  obtain ⟨kind, text⟩ := lexeme
  cases kind with
  | keyword word =>
    have text_eq : text.toList = word.spelling := sound
    have cuts := cuts_of_isWord (isWord_keyword word)
    rw [String.toList_ofList, Piece.wordKind, Keyword.ofSpelling?_spelling] at cuts
    exact text_eq ▸ cuts
  | identifier =>
    obtain ⟨word, notReserved⟩ : isWord text = true ∧ Keyword.ofSpelling? text.toList = none :=
      sound
    have cuts := cuts_of_isWord word
    rwa [Piece.wordKind, notReserved] at cuts
  | integerLiteral =>
    obtain ⟨nonempty, digits⟩ : text.toList ≠ [] ∧ text.toList.all Char.isDigit = true := sound
    obtain ⟨c, others, text_eq⟩ := List.exists_cons_of_ne_nil nonempty
    rw [text_eq] at digits
    have digit : c.isDigit = true := List.all_eq_true.mp digits c List.mem_cons_self
    have bounds := Piece.toNat_of_isDigit digit
    exact ⟨c, others, text_eq, isSpace_eq_false bounds.1, fun after => Piece.cut_number digits⟩
  | charLiteral =>
    obtain ⟨body, text_eq, closed, count_eq⟩ : isCharLiteral text := sound
    exact ⟨'\'', _, text_eq, rfl, fun after _ => Piece.cut_charLiteral closed count_eq⟩
  | punctuator punctuator =>
    have text_eq : text.toList = punctuator.spelling := sound
    obtain ⟨c, others, spelling_eq⟩ := List.exists_cons_of_ne_nil punctuator.spelling_ne_nil
    refine ⟨c, others, text_eq.trans spelling_eq, ?_, fun after =>
      Piece.cut_mark spelling_eq⟩
    cases punctuator <;> cases spelling_eq <;> rfl

end Lexeme

/-! ## Spaced texts -/

/-- The items up to a rest are tokens with given lexemes. -/
def Spelt : List Lexeme → List LexItem → List LexItem → Prop
  | [], items, rest => items = rest
  | lexeme :: others, items, rest =>
    ∃ token after, items = .ok token :: after ∧ token.lexeme = lexeme ∧ Spelt others after rest

/-- Lexemes written with a space between any two. -/
def spaced (lexemes : List Lexeme) : List Char :=
  [' '].intercalate (lexemes.map (·.text.toList))

/-- The items that are left after a lexeme at the head of a text was cut off. -/
theorem Lexeme.Sound.exists_itemsFrom {lexeme : Lexeme} (sound : lexeme.Sound) {after : List Char}
    (parted : Parted after) (offset : Nat) :
    ∃ token, token.lexeme = lexeme ∧
      itemsFrom offset (pieces (lexeme.text.toList ++ after)) =
        .ok token :: itemsFrom token.span.stop (pieces after) := by
  obtain ⟨c, others, text_eq, -, cuts⟩ := sound.cuts
  refine ⟨⟨lexeme.kind, ⟨offset, offset + Text.byteLength (c :: others)⟩,
    String.ofList (c :: others)⟩, ?_, ?_⟩
  · rw [Token.lexeme, ← text_eq, String.ofList_toList]
  · rw [text_eq, List.cons_append, pieces, cuts after parted]
    rfl

/-- A space in front of a lexeme is skipped. -/
theorem Lexeme.Sound.itemsFrom_space {lexeme : Lexeme} (sound : lexeme.Sound) (after : List Char)
    (offset : Nat) :
    itemsFrom offset (pieces (' ' :: (lexeme.text.toList ++ after))) =
      itemsFrom (offset + 1) (pieces (lexeme.text.toList ++ after)) := by
  obtain ⟨c, others, text_eq, noSpace, -⟩ := sound.cuts
  rw [text_eq, pieces]
  have cut_eq : Piece.cut ' ' (c :: others ++ after) = ⟨.blank, [' '], c :: others ++ after⟩ := by
    have isRun : Piece.cut ' ' (c :: others ++ after) =
        Piece.run .blank Piece.isSpace (' ' :: (c :: others ++ after)) := rfl
    rw [isRun, Piece.run, List.takeWhile_cons_of_pos (by rfl), List.dropWhile_cons_of_pos (by rfl)]
    simp [noSpace]
  rw [cut_eq]
  rfl

theorem spaced_cons (first : Lexeme) (others : List Lexeme) :
    spaced (first :: others) =
      first.text.toList ++ others.flatMap fun lexeme => ' ' :: lexeme.text.toList := by
  induction others generalizing first with
  | nil => simp [spaced, List.intercalate]
  | cons second more ih =>
    have spaced_eq : spaced (first :: second :: more) =
        first.text.toList ++ ' ' :: spaced (second :: more) := by
      simp [spaced, List.intercalate]
    rw [spaced_eq, ih, List.flatMap_cons]
    rfl

theorem parted_flatMap (lexemes : List Lexeme) :
    Parted (lexemes.flatMap fun lexeme => ' ' :: lexeme.text.toList) := by
  intro c found
  cases lexemes with
  | nil => cases found
  | cons first others =>
    cases found
    rfl

/-- Lexemes with a space in front of each are read back. -/
theorem spelt_flatMap {lexemes : List Lexeme} (sound : ∀ lexeme ∈ lexemes, lexeme.Sound)
    (offset : Nat) :
    Spelt lexemes
      (itemsFrom offset (pieces (lexemes.flatMap fun lexeme => ' ' :: lexeme.text.toList))) [] := by
  induction lexemes generalizing offset with
  | nil =>
    rw [List.flatMap_nil, pieces]
    rfl
  | cons first others ih =>
    rw [List.forall_mem_cons] at sound
    rw [List.flatMap_cons, List.cons_append, sound.1.itemsFrom_space]
    obtain ⟨token, lexeme_eq, items_eq⟩ :=
      sound.1.exists_itemsFrom (parted_flatMap others) (offset + 1)
    exact ⟨token, _, items_eq, lexeme_eq, ih sound.2 _⟩

/-- The items of a spaced text are tokens with the lexemes that it was written from. -/
theorem spelt_spaced {lexemes : List Lexeme} (sound : ∀ lexeme ∈ lexemes, lexeme.Sound) :
    Spelt lexemes (lexItems (spaced lexemes)) [] := by
  cases lexemes with
  | nil =>
    rw [spaced, List.map_nil, List.intercalate_nil, lexItems, pieces]
    rfl
  | cons first others =>
    rw [List.forall_mem_cons] at sound
    rw [spaced_cons, lexItems]
    obtain ⟨token, lexeme_eq, items_eq⟩ := sound.1.exists_itemsFrom (parted_flatMap others) 0
    exact ⟨token, _, items_eq, lexeme_eq, spelt_flatMap sound.2 _⟩

end SmallC
