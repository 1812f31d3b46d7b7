import SmallC.Graph.Fault
import SmallC.Text.Digits

/-!
# Values of literals

Every literal denotes a 32-bit number: an integer literal its value, a character literal the number
of its character.
-/

namespace SmallC

namespace CharLiteral

/-- The text between the quotes. A text that is not in quotes is taken as it is. -/
def unquoted (text : List Char) : List Char :=
  match text with
  | '\'' :: rest =>
    match rest.getLast? with
    | some '\'' => rest.dropLast
    | _ => text
  | _ => text

/-- The character that a backslash followed by a character denotes: the character itself, except for
a few letters and zero. -/
def escaped : Char → Char
  | 'n' => '\n'
  | 't' => '\t'
  | 'r' => '\r'
  | '0' => '\x00'
  | 'a' => '\x07'
  | 'b' => '\x08'
  | 'f' => '\x0c'
  | 'v' => '\x0b'
  | other => other

/-- The character that the text between the quotes denotes. Only its start counts. -/
def denoted? : List Char → Option Char
  | [] => none
  | ['\\'] => some '\\'
  | '\\' :: c :: _ => some (escaped c)
  | c :: _ => some c

/-- The value of a character literal. -/
def value (text : List Char) : Except Fault Int32 :=
  match denoted? (unquoted text) with
  | some c => .ok (Int32.ofNat c.toNat)
  | none => .error .emptyCharLiteral

end CharLiteral

namespace IntegerLiteral

/-- The value of an integer literal, kept to 32 bits: the magnitude `2 ^ 31` becomes the least
number, which is its own negative. -/
def value (text : List Char) : Except Fault Int32 :=
  match Text.int64? text with
  | some value => .ok value.toInt32
  | none => .error (.invalidInteger (String.ofList text))

theorem value_digits {digits : List Char} (nonempty : digits ≠ [])
    (decimal : digits.all Char.isDigit = true)
    (bounded : Text.digitsValue digits < 0x8000000000000000) :
    value digits = .ok (Int32.ofNat (Text.digitsValue digits)) := by
  rw [value, Text.int64?_digits nonempty decimal, if_pos bounded]
  exact congrArg Except.ok Int64.toInt32_ofNat'

end IntegerLiteral

/-- The value of a literal. -/
def Literal.value (literal : Literal) : Except Fault Int32 :=
  match literal.kind with
  | .integer => IntegerLiteral.value literal.text.toList
  | .character => CharLiteral.value literal.text.toList

end SmallC
