/-!
# Similar words

The Jaro similarity of two words, as a fraction of natural numbers. Letters match when they are
equal and not too far apart; the similarity is the mean of three shares: matched letters of the
first word, matched letters of the second, and matches that stand in the same order in both.
-/

namespace SmallC.Text

/-- A fraction of natural numbers. -/
structure Fraction where
  numerator : Nat
  denominator : Nat
  deriving DecidableEq, Repr

/-- Whether a fraction is greater than another, for positive denominators. -/
def Fraction.greater (left right : Fraction) : Bool :=
  right.numerator * left.denominator < left.numerator * right.denominator

/-- How far apart matching letters of words of two lengths may stand. -/
def matchWindow (left right : Nat) : Nat :=
  max left right / 2 - 1

/-- The first place from `place` on where a letter stands, near enough to `centre` and not yet
taken. -/
def matchPlace? (window centre : Nat) (letter : Char) (taken : List Nat) :
    Nat → List Char → Option Nat
  | _, [] => none
  | place, first :: others =>
    if first = letter ∧ centre ≤ place + window ∧ place ≤ centre + window ∧
        place ∉ taken then
      some place
    else
      matchPlace? window centre letter taken (place + 1) others

/-- The matched letters of the first word, in order, each with its place in the second word. -/
def matchLetters (window : Nat) (right : List Char) :
    Nat → List Nat → List Char → List (Char × Nat)
  | _, _, [] => []
  | centre, taken, letter :: letters =>
    match matchPlace? window centre letter taken 0 right with
    | some place =>
      (letter, place) :: matchLetters window right (centre + 1) (place :: taken) letters
    | none => matchLetters window right (centre + 1) taken letters

/-- The Jaro similarity of two words. -/
def similarity (left right : String) : Fraction :=
  let a := left.toList
  let b := right.toList
  let found := matchLetters (matchWindow a.length b.length) b 0 [] a
  let matched := found.length
  if a.isEmpty && b.isEmpty then
    ⟨1, 1⟩
  else if matched = 0 then
    ⟨0, 1⟩
  else
    let inOrder := found.mergeSort fun x y => x.2 ≤ y.2
    let moved := (found.zip inOrder).countP fun pair => pair.1.1 != pair.2.1
    let kept := matched - moved / 2
    ⟨matched * matched * (a.length + b.length) + kept * a.length * b.length,
      3 * matched * a.length * b.length⟩

/-- The word most similar to a given one among those that are similar enough. Of equally similar
words the last one is taken. -/
def mostSimilar? (threshold : Fraction) (word : String) (candidates : List String) :
    Option String :=
  let better (best : Option (Fraction × String)) (candidate : String) :=
    let score := similarity word candidate
    if score.greater threshold then
      match best with
      | some (bestScore, _) => if bestScore.greater score then best else some (score, candidate)
      | none => some (score, candidate)
    else
      best
  (candidates.foldl better none).map Prod.snd

end SmallC.Text
