import SmallC.Span
import SmallC.Token.Keyword
import SmallC.Token.Punctuator

/-!
# Tokens

A token is a word, a literal or a punctuator with its span and its text. A stretch of text that is
no token has a cause instead.
-/

namespace SmallC

/-- The kinds of tokens. -/
inductive TokenKind where
  | keyword (word : Keyword)
  | identifier
  | integerLiteral
  | charLiteral
  | punctuator (mark : Punctuator)
  deriving DecidableEq, Repr

/-- The name of a kind of token in messages. -/
def TokenKind.name : TokenKind → String
  | .keyword word => "Keyword(" ++ word.name ++ ")"
  | .identifier => "Identifier"
  | .integerLiteral => "IntegerLiteral"
  | .charLiteral => "CharLiteral"
  | .punctuator mark => mark.name

/-- The operator classes of a kind of token. -/
def TokenKind.classes : TokenKind → List OperatorClass
  | .punctuator mark => mark.classes
  | _ => []

/-- A token of the program. -/
structure Token where
  kind : TokenKind
  span : Span
  text : String
  deriving DecidableEq, Repr

/-- Why a stretch of text is no token. -/
inductive LexicalError where
  | nonAsciiCharacter (c : Char)
  | unexpectedCharacter (c : Char)
  | characterInInteger (c : Char)
  | unclosedComment
  | unclosedCharLiteral
  | charLiteralLength
  deriving DecidableEq, Repr

/-- The text of a lexical error. -/
def LexicalError.message : LexicalError → String
  | .nonAsciiCharacter c =>
    "Unexpected non-ascii character in stream: `" ++ String.singleton c ++ "`"
  | .unexpectedCharacter c =>
    "Unexpected character in stream: `" ++ String.singleton c ++ "`"
  | .characterInInteger c =>
    "Unexpected character `" ++ String.singleton c ++ "` in integer literal"
  | .unclosedComment => "Reached end of file while reading block comment"
  | .unclosedCharLiteral => "Reached end of line while reading character literal"
  | .charLiteralLength => "Character literals must contain exactly one character"

/-- A stretch of text that is no token. -/
structure Malformed where
  cause : LexicalError
  span : Span
  deriving DecidableEq, Repr

/-- What the reader of a program meets next: a token or a stretch that is none. -/
abbrev LexItem := Except Malformed Token

end SmallC
