import SmallC.Text.Bytes
import SmallC.Token

/-!
# Pieces of a text

A text is cut into pieces from left to right: blanks and comments, tokens, and stretches that are
neither. Cutting loses nothing, since the pieces put together are the text, and no piece is empty,
so it ends. The spans of tokens follow from the lengths of the pieces before them.
-/

namespace SmallC

/-- What a piece of the text is. -/
inductive PieceSort where
  /-- White space or a comment. -/
  | blank
  | token (kind : TokenKind)
  | malformed (cause : LexicalError)
  deriving DecidableEq, Repr

/-- A piece of the text, and the text after it. -/
structure Piece where
  sort : PieceSort
  chars : List Char
  rest : List Char
  deriving DecidableEq, Repr

namespace Piece

/-! ## Character classes -/

/-- White space: space, tab, newline, form feed and carriage return. -/
def isSpace (c : Char) : Bool :=
  c = ' ' || c = '\t' || c = '\n' || c = '\x0c' || c = '\r'

/-- The characters a word may start with. -/
def isWordStart (c : Char) : Bool :=
  c.isAlpha || c = '_'

/-- The characters a word may go on with. -/
def isWordChar (c : Char) : Bool :=
  isWordStart c || c.isDigit

/-- The longest piece whose characters all belong to a class. -/
def run (sort : PieceSort) (belongs : Char → Bool) (text : List Char) : Piece :=
  ⟨sort, text.takeWhile belongs, text.dropWhile belongs⟩

/-! ## Comments -/

/-- Splits a text after the first `*/`. -/
def commentEnd? : List Char → Option (List Char × List Char)
  | [] => none
  | '*' :: '/' :: rest => some (['*', '/'], rest)
  | c :: rest => (commentEnd? rest).map fun parts => (c :: parts.1, parts.2)

/-- A comment whose opening `/*` has been read. -/
def blockComment (text : List Char) : Piece :=
  match commentEnd? text with
  | some (inner, rest) => ⟨.blank, '/' :: '*' :: inner, rest⟩
  | none => ⟨.malformed .unclosedComment, '/' :: '*' :: text, []⟩

/-! ## Literals and words -/

/-- The part of a character literal after its opening quote: the characters up to the closing quote
or the end of the line, how many characters they denote, and whether the quote was found. -/
structure CharBody where
  chars : List Char
  rest : List Char
  count : Nat
  closed : Bool
  deriving DecidableEq, Repr

/-- Reads the part of a character literal after its opening quote. A backslash and the character
after it, whatever it is, denote one character. The newline that ends an unclosed literal is read
with it. -/
def charBody : List Char → CharBody
  | [] => ⟨[], [], 0, false⟩
  | '\n' :: rest => ⟨['\n'], rest, 0, false⟩
  | '\'' :: rest => ⟨['\''], rest, 0, true⟩
  | ['\\'] => ⟨['\\'], [], 0, false⟩
  | '\\' :: c :: rest =>
    let body := charBody rest
    ⟨'\\' :: c :: body.chars, body.rest, body.count + 1, body.closed⟩
  | c :: rest =>
    let body := charBody rest
    ⟨c :: body.chars, body.rest, body.count + 1, body.closed⟩

/-- A character literal whose opening quote has been read. -/
def charLiteral (text : List Char) : Piece :=
  let body := charBody text
  let sort :=
    if !body.closed then .malformed .unclosedCharLiteral
    else if body.count = 1 then .token .charLiteral
    else .malformed .charLiteralLength
  ⟨sort, '\'' :: body.chars, body.rest⟩

/-- A number. A letter right after the digits makes it malformed and is read with it. -/
def number (text : List Char) : Piece :=
  let digits := text.takeWhile Char.isDigit
  match text.dropWhile Char.isDigit with
  | [] => ⟨.token .integerLiteral, digits, []⟩
  | c :: rest =>
    if isWordStart c then ⟨.malformed (.characterInInteger c), digits ++ [c], rest⟩
    else ⟨.token .integerLiteral, digits, c :: rest⟩

/-- The kind of token that a word is. -/
def wordKind (word : List Char) : TokenKind :=
  match Keyword.ofSpelling? word with
  | some keyword => .keyword keyword
  | none => .identifier

/-- A word. -/
def word (text : List Char) : Piece :=
  let chars := text.takeWhile isWordChar
  ⟨.token (wordKind chars), chars, text.dropWhile isWordChar⟩

/-- A punctuator at the head of the nonempty text `c :: rest`. -/
def mark (c : Char) (rest : List Char) : Piece :=
  match Punctuator.longest? (c :: rest) with
  | some punctuator =>
    ⟨.token (.punctuator punctuator), punctuator.spelling,
      (c :: rest).drop punctuator.spelling.length⟩
  | none => ⟨.malformed (.unexpectedCharacter c), [c], rest⟩

/-! ## Cutting -/

/-- The piece of a text that starts with a slash. -/
def slash : List Char → Piece
  | '/' :: rest => run .blank (· != '\n') ('/' :: '/' :: rest)
  | '*' :: rest => blockComment rest
  | rest => mark '/' rest

/-- The first piece of the nonempty text `c :: rest`. A line that starts with `#` is read like a
comment. -/
def cut (c : Char) (rest : List Char) : Piece :=
  if 0x7f < c.toNat then ⟨.malformed (.nonAsciiCharacter c), [c], rest⟩
  else if isSpace c then run .blank isSpace (c :: rest)
  else if c = '#' then run .blank (· != '\n') (c :: rest)
  else if c = '/' then slash rest
  else if c = '\'' then charLiteral rest
  else if c.isDigit then number (c :: rest)
  else if isWordStart c then word (c :: rest)
  else mark c rest

/-! ## Nothing is lost, and every cut is a step forward -/

/-- A piece covers a text when it is nonempty and the text is the piece followed by its rest. -/
def Covers (piece : Piece) (text : List Char) : Prop :=
  piece.chars ++ piece.rest = text ∧ piece.chars ≠ []

theorem Covers.rest_length_lt {piece : Piece} {text : List Char} (covers : piece.Covers text) :
    piece.rest.length < text.length := by
  obtain ⟨append_eq, nonempty⟩ := covers
  have chars_pos := List.length_pos_iff.mpr nonempty
  have length_eq := congrArg List.length append_eq
  simp only [List.length_append] at length_eq
  omega

variable {rest : List Char}

theorem run_covers {sort : PieceSort} {belongs : Char → Bool} {c : Char}
    (head_belongs : belongs c = true) : (run sort belongs (c :: rest)).Covers (c :: rest) := by
  constructor
  · exact List.takeWhile_append_dropWhile
  · simp [run, head_belongs]

theorem append_of_commentEnd? {text inner : List Char}
    (found : commentEnd? text = some (inner, rest)) : inner ++ rest = text := by
  fun_induction commentEnd? text generalizing inner rest with
  | case1 => contradiction
  | case2 rest' =>
    simp only [Option.some.injEq, Prod.mk.injEq] at found
    obtain ⟨rfl, rfl⟩ := found
    rfl
  | case3 c rest' _ ih =>
    simp only [Option.map_eq_some_iff, Prod.exists, Prod.mk.injEq] at found
    obtain ⟨front, back, inner_found, rfl, rfl⟩ := found
    simp [ih inner_found]

theorem blockComment_covers (text : List Char) :
    (blockComment text).Covers ('/' :: '*' :: text) := by
  unfold blockComment
  split
  · rename_i inner rest found
    exact ⟨by simp [append_of_commentEnd? found], by simp⟩
  · exact ⟨by simp, by simp⟩

theorem charBody_append (text : List Char) :
    (charBody text).chars ++ (charBody text).rest = text := by
  fun_induction charBody text with
  | case1 => rfl
  | case2 => rfl
  | case3 => rfl
  | case4 => rfl
  | case5 c rest body ih => simpa using ih
  | case6 c rest _ _ _ _ body ih => simpa using ih

theorem charLiteral_covers (text : List Char) : (charLiteral text).Covers ('\'' :: text) := by
  refine ⟨?_, by simp [charLiteral]⟩
  simpa [charLiteral] using charBody_append text

theorem number_covers {c : Char} (digit : c.isDigit = true) :
    (number (c :: rest)).Covers (c :: rest) := by
  have parts := List.takeWhile_append_dropWhile (p := Char.isDigit) (l := c :: rest)
  have nonempty : (c :: rest).takeWhile Char.isDigit ≠ [] := by
    simp [digit]
  unfold number
  split
  · rename_i drop_eq
    rw [drop_eq, List.append_nil] at parts
    exact ⟨by simpa using parts, by simpa using nonempty⟩
  · rename_i next after drop_eq
    rw [drop_eq] at parts
    split
    · exact ⟨by simpa using parts, by simp⟩
    · exact ⟨by simpa using parts, nonempty⟩

theorem word_covers {c : Char} (start : isWordStart c = true) :
    (word (c :: rest)).Covers (c :: rest) := by
  constructor
  · exact List.takeWhile_append_dropWhile
  · simp [word, isWordChar, start]

theorem mark_covers (c : Char) (rest : List Char) : (mark c rest).Covers (c :: rest) := by
  unfold mark
  split
  · rename_i punctuator found
    exact ⟨Punctuator.append_of_longest? found, punctuator.spelling_ne_nil⟩
  · exact ⟨rfl, by simp⟩

theorem slash_covers (rest : List Char) : (slash rest).Covers ('/' :: rest) := by
  unfold slash
  split
  · exact run_covers (by decide)
  · exact blockComment_covers _
  · exact mark_covers '/' _

/-- Cutting loses nothing and always takes at least one character. -/
theorem cut_covers (c : Char) (rest : List Char) : (cut c rest).Covers (c :: rest) := by
  unfold cut
  split
  · exact ⟨rfl, by simp⟩
  · split
    · rename_i space
      exact run_covers space
    · split
      · rename_i hash
        exact run_covers (by simp [hash])
      · split
        · rename_i slash_eq
          exact slash_eq ▸ slash_covers rest
        · split
          · rename_i quote_eq
            exact quote_eq ▸ charLiteral_covers rest
          · split
            · rename_i digit
              exact number_covers digit
            · split
              · rename_i start
                exact word_covers start
              · exact mark_covers c rest

/-- The text after the first piece is shorter. -/
theorem cut_rest_length_lt (c : Char) (rest : List Char) :
    (cut c rest).rest.length < (c :: rest).length :=
  (cut_covers c rest).rest_length_lt

/-! ## Items -/

/-- The item that a piece is when it starts at a byte offset. Blanks are none. -/
def item? (piece : Piece) (offset : Nat) : Option LexItem :=
  let span : Span := ⟨offset, offset + Text.byteLength piece.chars⟩
  match piece.sort with
  | .blank => none
  | .token kind => some (.ok ⟨kind, span, String.ofList piece.chars⟩)
  | .malformed cause => some (.error ⟨cause, span⟩)

end Piece

/-- The pieces of a text, from left to right. -/
def pieces : List Char → List Piece
  | [] => []
  | c :: rest =>
    let piece := Piece.cut c rest
    piece :: pieces piece.rest
  termination_by text => text.length
  decreasing_by exact Piece.cut_rest_length_lt c rest

/-- The items among pieces, the first of which starts at a byte offset. -/
def itemsFrom (offset : Nat) : List Piece → List LexItem
  | [] => []
  | piece :: others =>
    let after := itemsFrom (offset + Text.byteLength piece.chars) others
    match piece.item? offset with
    | none => after
    | some item => item :: after

/-- The tokens of a text and the stretches that are none, in order. -/
def lexItems (text : List Char) : List LexItem :=
  itemsFrom 0 (pieces text)

/-- The pieces of a text, put together, are the text. -/
theorem flatMap_pieces (text : List Char) : (pieces text).flatMap Piece.chars = text := by
  fun_induction pieces text with
  | case1 => rfl
  | case2 c rest piece ih =>
    simp only [List.flatMap_cons, ih]
    exact (Piece.cut_covers c rest).1

end SmallC
