/-!
# Byte offsets into a text

A text is a list of characters, and places in it are named by UTF-8 byte offsets. Splitting at an
offset fails when the offset lies past the end or inside the bytes of one character. The main
statements say that a split loses nothing and cuts at the offset asked for, and that it exists at
every boundary between two parts of the text.
-/

namespace SmallC.Text

/-- The number of bytes in the UTF-8 form of a text. -/
def byteLength : List Char → Nat
  | [] => 0
  | c :: rest => c.utf8Size + byteLength rest

@[simp]
theorem byteLength_nil : byteLength [] = 0 :=
  rfl

@[simp]
theorem byteLength_cons (c : Char) (rest : List Char) :
    byteLength (c :: rest) = c.utf8Size + byteLength rest :=
  rfl

@[simp]
theorem byteLength_append (first second : List Char) :
    byteLength (first ++ second) = byteLength first + byteLength second := by
  induction first with
  | nil => simp
  | cons c rest ih => simp [ih, Nat.add_assoc]

/-- Only the empty text has no bytes. -/
theorem byteLength_pos {text : List Char} (nonempty : text ≠ []) : 0 < byteLength text := by
  cases text with
  | nil => contradiction
  | cons c rest =>
    have := c.utf8Size_pos
    simp only [byteLength_cons]
    omega

/-- The parts of a text before and after a byte offset, if the offset is a boundary between
characters. -/
def splitAt? : List Char → Nat → Option (List Char × List Char)
  | text, 0 => some ([], text)
  | [], _ + 1 => none
  | c :: rest, offset + 1 =>
    if c.utf8Size ≤ offset + 1 then
      (splitAt? rest (offset + 1 - c.utf8Size)).map fun parts => (c :: parts.1, parts.2)
    else
      none

@[simp]
theorem splitAt?_zero (text : List Char) : splitAt? text 0 = some ([], text) := by
  cases text <;> rfl

/-- A split loses nothing, and its first part has as many bytes as asked for. -/
theorem eq_append_of_splitAt? {text : List Char} {offset : Nat} {before after : List Char}
    (split : splitAt? text offset = some (before, after)) :
    text = before ++ after ∧ byteLength before = offset := by
  induction text generalizing offset before after with
  | nil =>
    cases offset with
    | zero => simp_all
    | succ offset => simp [splitAt?] at split
  | cons c rest ih =>
    cases offset with
    | zero => simp_all
    | succ offset =>
      simp only [splitAt?] at split
      split at split
      · rename_i fits
        simp only [Option.map_eq_some_iff, Prod.exists, Prod.mk.injEq] at split
        obtain ⟨front, back, inner, rfl, rfl⟩ := split
        obtain ⟨rest_eq, length_eq⟩ := ih inner
        refine ⟨by simp [rest_eq], ?_⟩
        simp only [byteLength_cons, length_eq]
        omega
      · contradiction

/-- Every boundary between two parts of a text can be split at. -/
theorem splitAt?_append (before after : List Char) :
    splitAt? (before ++ after) (byteLength before) = some (before, after) := by
  induction before with
  | nil => simp
  | cons c rest ih =>
    have size_pos := c.utf8Size_pos
    obtain ⟨offset, offset_eq⟩ :
        ∃ offset, c.utf8Size + byteLength rest = offset + 1 :=
      ⟨c.utf8Size + byteLength rest - 1, by omega⟩
    have rest_eq : offset + 1 - c.utf8Size = byteLength rest := by omega
    simp only [List.cons_append, byteLength_cons, offset_eq, splitAt?, rest_eq, ih]
    rw [if_pos (by omega)]
    rfl

/-- A split at an offset succeeds exactly on the boundaries of the text. -/
theorem splitAt?_eq_some_iff {text : List Char} {offset : Nat} {before after : List Char} :
    splitAt? text offset = some (before, after) ↔
      text = before ++ after ∧ byteLength before = offset := by
  constructor
  · exact eq_append_of_splitAt?
  · rintro ⟨rfl, rfl⟩
    exact splitAt?_append before after

/-- The part of a text between two byte offsets. It exists when the offsets are boundaries in
order. -/
def slice? (text : List Char) (start stop : Nat) : Option (List Char) :=
  if start ≤ stop then
    (splitAt? text start).bind fun parts =>
      (splitAt? parts.2 (stop - start)).map Prod.fst
  else
    none

end SmallC.Text
