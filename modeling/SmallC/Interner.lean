/-!
# Interning

An interner numbers texts in the order in which they are first seen, so that equal texts get equal
numbers and a number gives its text back. Numbers have 32 bits.
-/

namespace SmallC

/-- Texts by their numbers, and numbers by their texts. -/
structure Interner where
  /-- The texts in the order in which they were first seen. -/
  texts : List String
  /-- The number of each text, the newest first. -/
  numbers : List (String × UInt32)
  deriving Repr

namespace Interner

/-- The interner that has seen no text. -/
def empty : Interner :=
  ⟨[], []⟩

/-- The number of a text that was seen. -/
def indexOf? (interner : Interner) (text : String) : Option UInt32 :=
  interner.numbers.lookup text

/-- The text of a number. -/
def get? (interner : Interner) (number : UInt32) : Option String :=
  interner.texts[number.toNat]?

/-- The number of a text, which is new if the text was not seen before. -/
def insert (interner : Interner) (text : String) : UInt32 × Interner :=
  match interner.indexOf? text with
  | some number => (number, interner)
  | none =>
    let number := UInt32.ofNat interner.texts.length
    (number, ⟨interner.texts ++ [text], (text, number) :: interner.numbers⟩)

/-! ## What inserting changes -/

variable {interner : Interner} {text : String}

theorem insert_of_some {number : UInt32} (known : interner.indexOf? text = some number) :
    interner.insert text = (number, interner) := by
  rw [insert, known]

theorem insert_of_none (unknown : interner.indexOf? text = none) :
    interner.insert text =
      (UInt32.ofNat interner.texts.length,
        ⟨interner.texts ++ [text],
          (text, UInt32.ofNat interner.texts.length) :: interner.numbers⟩) := by
  rw [insert, unknown]

/-- An inserted text has the number that was answered, and other texts keep theirs. -/
theorem indexOf?_insert (interner : Interner) (text other : String) :
    (interner.insert text).2.indexOf? other =
      if other = text then some (interner.insert text).1 else interner.indexOf? other := by
  cases found : interner.indexOf? text with
  | some number =>
    rw [insert_of_some found]
    split
    · rename_i same
      rw [same, found]
    · rfl
  | none =>
    rw [insert_of_none found, indexOf?, List.lookup_cons]
    by_cases same : other = text
    · simp [same]
    · have different : (other == text) = false := beq_false_of_ne same
      simp [same, different, indexOf?]

end Interner

end SmallC
