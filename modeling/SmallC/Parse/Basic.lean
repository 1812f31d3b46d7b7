import SmallC.Parse.Error
import SmallC.Tree

/-!
# Taking tokens

Reading part of a program gives a value and the items after it. The result says in its type that
fewer items are left than a bound, so every reader that returns has made progress and a recursion on
what is left ends. Reading stops at the first item that is no token.
-/

namespace SmallC

/-- A value that was read, and the fewer than `bound` items after it. -/
structure Parsed (α : Type) (bound : Nat) where
  value : α
  rest : List LexItem
  short : rest.length < bound

namespace Parse

/-- Takes the next token, whatever it is. -/
def next (expected : Expected) :
    (items : List LexItem) → Except ParseFailure (Parsed Token items.length)
  | [] => .error (.atEnd expected)
  | .error malformed :: _ => .error (.ofMalformed malformed)
  | .ok token :: rest => .ok ⟨token, rest, by simp⟩

/-- Looks at the next token, which has to exist. -/
def peek (expected : Expected) : List LexItem → Except ParseFailure Token
  | [] => .error (.atEnd expected)
  | .error malformed :: _ => .error (.ofMalformed malformed)
  | .ok token :: _ => .ok token

/-- Takes the next token if there is one and it can be used. -/
def take? (use : Token → Option α) :
    (items : List LexItem) → Except ParseFailure (Option (Parsed α items.length))
  | [] => .ok none
  | .error malformed :: _ => .error (.ofMalformed malformed)
  | .ok token :: rest => .ok ((use token).map fun value => ⟨value, rest, by simp⟩)

/-- A token of a given kind. -/
def ofKind? (kind : TokenKind) (token : Token) : Option Token :=
  if token.kind = kind then some token else none

/-- Takes the next token if it is of a given kind. -/
def eat? (kind : TokenKind) (items : List LexItem) :
    Except ParseFailure (Option (Parsed Token items.length)) :=
  take? (ofKind? kind) items

/-- Takes the next token, which has to be of a given kind. -/
def expect (kind : TokenKind) (items : List LexItem) :
    Except ParseFailure (Parsed Token items.length) := do
  let parsed ← next (.token kind) items
  let token := parsed.value
  if token.kind = kind then
    return parsed
  else
    throw (.located token.span (.mismatch kind token.kind token.text))

/-- The name that an identifier token is. -/
def ident (token : Token) : Ident :=
  ⟨token.text, token.span⟩

/-- Takes a name. -/
def identifier (items : List LexItem) : Except ParseFailure (Parsed Ident items.length) := do
  let ⟨token, rest, short⟩ ← expect .identifier items
  return ⟨ident token, rest, short⟩

end Parse

end SmallC
