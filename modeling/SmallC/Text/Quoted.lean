import SmallC.Text.CharSet.Assigned
import SmallC.Text.CharSet.Blank
import SmallC.Text.CharSet.Extending

/-!
# Quoted text

A text between double quotes, with the characters escaped that would end it or could not be seen.
-/

namespace SmallC.Text

/-- A number in lower-case hexadecimal, without leading zeros. -/
def hexadecimal (n : Nat) : String :=
  String.ofList (Nat.toDigits 16 n)

/-- Whether a character can be seen on its own. -/
def isVisible (c : Char) : Bool :=
  if c.toNat < 0x7f then
    0x20 ≤ c.toNat
  else
    CharSet.assigned.contains c && !CharSet.blank.contains c && !CharSet.extending.contains c

/-- One character inside double quotes. -/
def quoteChar (c : Char) : String :=
  if c = '"' then "\\\""
  else if c = '\\' then "\\\\"
  else if c = '\n' then "\\n"
  else if c = '\r' then "\\r"
  else if c = '\t' then "\\t"
  else if c = '\x00' then "\\0"
  else if isVisible c then String.singleton c
  else "\\u\x7b" ++ hexadecimal c.toNat ++ "\x7d"

/-- A text between double quotes. -/
def quote (text : String) : String :=
  "\"" ++ String.join (text.toList.map quoteChar) ++ "\""

end SmallC.Text
