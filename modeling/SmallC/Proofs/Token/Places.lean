import Mathlib
import SmallC.Token.Piece

/-!
# Places of items in a text

An offset is a boundary of a text when it does not lie inside the bytes of a character.  The items
of a text stand one after another: each lies between two boundaries, and none starts before the one
in front of it has ended.  So a span from one item to a later one lies in the text as well.
-/

namespace SmallC

/-! ## Boundaries -/

namespace Text

/-- An offset between two parts of a text. -/
def Boundary (text : List Char) (offset : Nat) : Prop :=
  ∃ before after, text = before ++ after ∧ byteLength before = offset

theorem Boundary.of_append (before after : List Char) :
    Boundary (before ++ after) (byteLength before) :=
  ⟨before, after, rfl, rfl⟩

/-- No boundary lies past the end. -/
theorem Boundary.le {text : List Char} {offset : Nat} (boundary : Boundary text offset) :
    offset ≤ byteLength text := by
  obtain ⟨before, after, rfl, rfl⟩ := boundary
  rw [byteLength_append]
  exact Nat.le_add_right _ _

/-- The end of a text is a boundary. -/
theorem Boundary.end (text : List Char) : Boundary text (byteLength text) :=
  ⟨text, [], by simp, rfl⟩

end Text

open Text

/-! ## Spans -/

/-- A span lies in a text: it runs from one boundary to the same one or a later one. -/
structure Span.LiesIn (text : List Char) (span : Span) : Prop where
  ordered : span.start ≤ span.stop
  start : Boundary text span.start
  stop : Boundary text span.stop

namespace Span.LiesIn

variable {text : List Char}

theorem point_end (text : List Char) : LiesIn text (.point (byteLength text)) :=
  ⟨Nat.le_refl _, .end text, .end text⟩

end Span.LiesIn

/-! ## Items -/

/-- The span of a token, or of a stretch that is none. -/
def LexItem.span : LexItem → Span
  | .ok token => token.span
  | .error malformed => malformed.span

/-- Items that lie in a text one after another, from an offset on. -/
def Placed (text : List Char) : Nat → List LexItem → Prop
  | _, [] => True
  | low, item :: rest =>
    (LexItem.span item).LiesIn text ∧ low ≤ (LexItem.span item).start ∧
      Placed text (LexItem.span item).stop rest

namespace Placed

variable {text : List Char}

/-- Items that lie after an offset lie after any earlier one. -/
theorem mono {low lower : Nat} {items : List LexItem} (placed : Placed text low items)
    (le : lower ≤ low) : Placed text lower items := by
  cases items with
  | nil => trivial
  | cons item rest => exact ⟨placed.1, le.trans placed.2.1, placed.2.2⟩

theorem itemsFrom {before : List Char} {cuts : List Piece}
    (text_eq : text = before ++ cuts.flatMap Piece.chars) :
    Placed text (byteLength before) (itemsFrom (byteLength before) cuts) := by
  induction cuts generalizing before with
  | nil => trivial
  | cons piece others ih =>
    have later_eq : text = (before ++ piece.chars) ++ others.flatMap Piece.chars := by
      rw [text_eq, List.flatMap_cons, List.append_assoc]
    have later := ih later_eq
    rw [byteLength_append] at later
    have longer := Nat.le_add_right (byteLength before) (byteLength piece.chars)
    have lies : Span.LiesIn text
        ⟨byteLength before, byteLength before + byteLength piece.chars⟩ := by
      refine ⟨longer, ?_, ?_⟩
      · exact text_eq ▸ Boundary.of_append before _
      · rw [← byteLength_append]
        exact later_eq ▸ Boundary.of_append _ _
    unfold SmallC.itemsFrom
    cases sort_eq : piece.sort with
    | blank =>
      simp only [Piece.item?, sort_eq]
      exact later.mono longer
    | token kind | malformed cause =>
      simp only [Piece.item?, sort_eq]
      exact ⟨lies, Nat.le_refl _, later⟩

end Placed

/-- The items of a text lie in it one after another. -/
theorem placed_lexItems (text : List Char) : Placed text 0 (lexItems text) :=
  Placed.itemsFrom (show text = [] ++ _ from (flatMap_pieces text).symm)

end SmallC
