/-!
# Keywords

The words that cannot be names.
-/

namespace SmallC

/-- The reserved words of the language. -/
inductive Keyword where
  | intWord
  | voidWord
  | ifWord
  | elseWord
  | whileWord
  | doWord
  | forWord
  | breakWord
  | continueWord
  | returnWord
  deriving DecidableEq, Repr

namespace Keyword

/-- All reserved words. -/
def all : List Keyword :=
  [.intWord, .voidWord, .ifWord, .elseWord, .whileWord, .doWord, .forWord, .breakWord,
    .continueWord, .returnWord]

/-- A reserved word as it is written. -/
def spelling : Keyword → List Char
  | .intWord => ['i', 'n', 't']
  | .voidWord => ['v', 'o', 'i', 'd']
  | .ifWord => ['i', 'f']
  | .elseWord => ['e', 'l', 's', 'e']
  | .whileWord => ['w', 'h', 'i', 'l', 'e']
  | .doWord => ['d', 'o']
  | .forWord => ['f', 'o', 'r']
  | .breakWord => ['b', 'r', 'e', 'a', 'k']
  | .continueWord => ['c', 'o', 'n', 't', 'i', 'n', 'u', 'e']
  | .returnWord => ['r', 'e', 't', 'u', 'r', 'n']

/-- The name of a reserved word in messages. -/
def name : Keyword → String
  | .intWord => "Int"
  | .voidWord => "Void"
  | .ifWord => "If"
  | .elseWord => "Else"
  | .whileWord => "While"
  | .doWord => "Do"
  | .forWord => "For"
  | .breakWord => "Break"
  | .continueWord => "Continue"
  | .returnWord => "Return"

/-- The reserved word with a given spelling. -/
def ofSpelling? (word : List Char) : Option Keyword :=
  all.find? (·.spelling == word)

/-- Reading a reserved word back gives the word itself. -/
@[simp]
theorem ofSpelling?_spelling (keyword : Keyword) :
    ofSpelling? keyword.spelling = some keyword := by
  cases keyword <;> rfl

/-- A word is read as a reserved word exactly when it is written like it. -/
theorem ofSpelling?_eq_some_iff {word : List Char} {keyword : Keyword} :
    ofSpelling? word = some keyword ↔ word = keyword.spelling := by
  constructor
  · intro found
    have matched := List.find?_some found
    exact (eq_of_beq matched).symm
  · rintro rfl
    exact ofSpelling?_spelling keyword

end Keyword

end SmallC
