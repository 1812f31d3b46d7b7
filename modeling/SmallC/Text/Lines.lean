/-!
# Lines of a text

A newline ends a line, so no empty line follows a final newline. A carriage return right before the
newline belongs to the line end and not to the line.
-/

namespace SmallC.Text

/-- The lines of a text, without their line ends. -/
def lines : List Char → List (List Char)
  | [] => []
  | '\n' :: rest => [] :: lines rest
  | '\r' :: '\n' :: rest => [] :: lines rest
  | c :: rest =>
    match lines rest with
    | [] => [[c]]
    | line :: others => (c :: line) :: others

/-- The characters after the last newline of a text. -/
def lastLine (text : List Char) : List Char :=
  (text.reverse.takeWhile (· != '\n')).reverse

/-- Only the empty text has no line. -/
theorem lines_eq_nil_iff {text : List Char} : lines text = [] ↔ text = [] := by
  constructor
  · intro empty
    cases text with
    | nil => rfl
    | cons c rest =>
      unfold lines at empty
      split at empty <;> try contradiction
      split at empty <;> contradiction
  · rintro rfl
    rfl

end SmallC.Text
