import SmallC.Parse.Basic
import SmallC.Proofs.Result
import SmallC.Proofs.Token.Lexeme

/-!
# Sound tokens

The text of every token of a program is of the kind that the token says, and taking tokens one by
one keeps that.
-/

namespace SmallC

/-- The text of a token is of the kind of the token. -/
def Token.Sound (token : Token) : Prop :=
  token.lexeme.Sound

namespace Token.Sound

variable {token : Token}

theorem name (sound : token.Sound) (kind_eq : token.kind = .identifier) :
    SmallC.isWord token.text = true ∧ Keyword.ofSpelling? token.text.toList = none := by
  rwa [Token.Sound, Token.lexeme, Lexeme.Sound, kind_eq] at sound

theorem digits (sound : token.Sound) (kind_eq : token.kind = .integerLiteral) :
    token.text.toList ≠ [] ∧ token.text.toList.all Char.isDigit = true := by
  rwa [Token.Sound, Token.lexeme, Lexeme.Sound, kind_eq] at sound

theorem isCharLiteral (sound : token.Sound) (kind_eq : token.kind = .charLiteral) :
    isCharLiteral token.text := by
  rwa [Token.Sound, Token.lexeme, Lexeme.Sound, kind_eq] at sound

end Token.Sound

/-- All tokens among items are sound. -/
def SoundItems (items : List LexItem) : Prop :=
  ∀ token, .ok token ∈ items → token.Sound

/-! ## Pieces -/

namespace Piece

/-- The token that a piece of this sort would be is sound. -/
def Sound (piece : Piece) : Prop :=
  ∀ kind span, piece.sort = .token kind → Token.Sound ⟨kind, span, String.ofList piece.chars⟩

theorem charLiteral_sound (text : List Char) : (charLiteral text).Sound := by
  intro kind span sort_eq
  simp only [charLiteral] at sort_eq ⊢
  split at sort_eq
  · contradiction
  · rename_i closed
    split at sort_eq
    · rename_i count_eq
      cases sort_eq
      exact ⟨text, String.toList_ofList, by simpa using closed, count_eq⟩
    · contradiction

theorem number_sound {c : Char} {rest : List Char} (digit : c.isDigit = true) :
    (number (c :: rest)).Sound := by
  have nonempty : (c :: rest).takeWhile Char.isDigit ≠ [] := by
    simp [digit]
  have digits : ((c :: rest).takeWhile Char.isDigit).all Char.isDigit = true := List.all_takeWhile
  intro kind span sort_eq
  unfold number at sort_eq ⊢
  split at sort_eq
  · cases sort_eq
    simp only [Token.Sound, Token.lexeme, Lexeme.Sound, String.toList_ofList]
    exact ⟨nonempty, digits⟩
  · split at sort_eq
    · contradiction
    · rename_i noWord
      cases sort_eq
      simp only [noWord, Token.Sound, Token.lexeme, Lexeme.Sound, String.toList_ofList,
        Bool.false_eq_true, if_false]
      exact ⟨nonempty, digits⟩

theorem word_sound {c : Char} {rest : List Char} (start : isWordStart c = true) :
    (word (c :: rest)).Sound := by
  have wordChar : isWordChar c = true := by
    simp [isWordChar, start]
  have others : (rest.takeWhile isWordChar).all isWordChar = true := List.all_takeWhile
  intro kind span sort_eq
  simp only [word] at sort_eq ⊢
  cases sort_eq
  unfold wordKind
  split
  · rename_i keyword found
    simp only [Token.Sound, Token.lexeme, Lexeme.Sound, String.toList_ofList]
    exact Keyword.ofSpelling?_eq_some_iff.mp found
  · rename_i notReserved
    simp only [Token.Sound, Token.lexeme, Lexeme.Sound, String.toList_ofList]
    refine ⟨?_, notReserved⟩
    simp only [isWord, String.toList_ofList, List.takeWhile_cons, wordChar, if_true]
    rw [start, others]
    rfl

theorem mark_sound (c : Char) (rest : List Char) : (mark c rest).Sound := by
  intro kind span sort_eq
  unfold mark at sort_eq ⊢
  split at sort_eq
  · cases sort_eq
    exact String.toList_ofList
  · contradiction

theorem slash_sound (rest : List Char) : (slash rest).Sound := by
  unfold slash
  split
  · intro kind span sort_eq
    contradiction
  · intro kind span sort_eq
    unfold blockComment at sort_eq
    split at sort_eq <;> contradiction
  · exact mark_sound '/' _

/-- The first piece of a text is a sound token, if it is a token. -/
theorem cut_sound (c : Char) (rest : List Char) : (cut c rest).Sound := by
  unfold cut
  split
  · intro kind span sort_eq
    contradiction
  · split
    · intro kind span sort_eq
      contradiction
    · split
      · intro kind span sort_eq
        contradiction
      · split
        · exact slash_sound rest
        · split
          · exact charLiteral_sound rest
          · split
            · rename_i digit
              exact number_sound digit
            · split
              · rename_i start
                exact word_sound start
              · exact mark_sound c rest

end Piece

theorem sound_of_mem_itemsFrom {offset : Nat} {cuts : List Piece}
    (sound : ∀ piece ∈ cuts, piece.Sound) (found : .ok token ∈ itemsFrom offset cuts) :
    token.Sound := by
  induction cuts generalizing offset with
  | nil => simp [itemsFrom] at found
  | cons piece others ih =>
    have later (found : .ok token ∈ itemsFrom (offset + Text.byteLength piece.chars) others) :=
      ih (fun other otherMem => sound other (List.mem_cons_of_mem piece otherMem)) found
    unfold itemsFrom at found
    cases sort_eq : piece.sort with
    | blank =>
      simp only [Piece.item?, sort_eq] at found
      exact later found
    | token kind =>
      simp only [Piece.item?, sort_eq, List.mem_cons, Except.ok.injEq] at found
      rcases found with rfl | found
      · exact sound piece List.mem_cons_self kind _ sort_eq
      · exact later found
    | malformed cause =>
      simp only [Piece.item?, sort_eq, List.mem_cons, reduceCtorEq, false_or] at found
      exact later found

theorem sound_of_mem_pieces {text : List Char} {piece : Piece} (found : piece ∈ pieces text) :
    piece.Sound := by
  fun_induction pieces text with
  | case1 => simp at found
  | case2 c rest first ih =>
    rcases List.mem_cons.mp found with rfl | later
    · exact Piece.cut_sound c rest
    · exact ih later

/-- All tokens of a text are sound. -/
theorem soundItems_lexItems (text : List Char) : SoundItems (lexItems text) := by
  intro token found
  exact sound_of_mem_itemsFrom (fun piece => sound_of_mem_pieces) found

/-! ## Taking tokens -/

namespace Parse

theorem ofKind?_eq_some_iff {kind : TokenKind} {found : Token} :
    ofKind? kind token = some found ↔ token = found ∧ token.kind = kind := by
  unfold ofKind?
  split <;> simp_all

end Parse

end SmallC
