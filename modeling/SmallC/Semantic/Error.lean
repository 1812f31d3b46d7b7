import SmallC.Span

/-!
# Semantic errors and warnings

What can be wrong, or doubtful, in a program that has a tree.
-/

namespace SmallC

/-- Why a program is refused. -/
inductive SemanticCause where
  | redeclaration (name : String)
  | shadowsParameter (name : String)
  | duplicateParameter (name : String)
  | undeclaredVariable (name : String)
  | voidResultUsed (name : String)
  | calleeIsVariable (name : String)
  | breakOutsideLoop
  | continueOutsideLoop
  | duplicateFunction (name : String)
  | missingMain
  deriving DecidableEq, Repr

namespace SemanticCause

/-- The text of a semantic error. -/
def message : SemanticCause → String
  | .redeclaration name => "redeclaration of variable `" ++ name ++ "`"
  | .shadowsParameter name => "declaration of `" ++ name ++ "` shadows a parameter"
  | .duplicateParameter name => "parameter `" ++ name ++ "` declared more than once"
  | .undeclaredVariable name => "use of undeclared variable `" ++ name ++ "`"
  | .voidResultUsed name => "result of void function `" ++ name ++ "` used in an expression"
  | .calleeIsVariable name =>
    "call to `" ++ name ++ "` which is the name of a variable in scope"
  | .breakOutsideLoop => "`break` used outside of a loop"
  | .continueOutsideLoop => "`continue` used outside of a loop"
  | .duplicateFunction name => "function `" ++ name ++ "` is defined more than once"
  | .missingMain => "no `main` function defined"

/-- The exit code of a compilation that ends with a semantic error. -/
def exitCode : SemanticCause → Nat
  | .redeclaration _ => 1
  | .shadowsParameter _ => 1
  | .duplicateParameter _ => 1
  | .voidResultUsed _ => 1
  | .calleeIsVariable _ => 1
  | .undeclaredVariable _ => 2
  | .breakOutsideLoop => 3
  | .continueOutsideLoop => 3
  | .duplicateFunction _ => 4
  | .missingMain => 5

end SemanticCause

/-- A semantic error and its place. -/
structure SemanticError where
  cause : SemanticCause
  span : Span
  deriving DecidableEq, Repr

/-- What is doubtful about a variable. -/
inductive WarningCause where
  | uninitializedRead (name : String)
  | unusedVariable (name : String)
  deriving DecidableEq, Repr

/-- The text of a warning. -/
def WarningCause.message : WarningCause → String
  | .uninitializedRead name => "variable `" ++ name ++ "` is used before being initialized"
  | .unusedVariable name => "variable `" ++ name ++ "` is never used"

/-- A warning and its place. -/
structure Warning where
  cause : WarningCause
  span : Span
  deriving DecidableEq, Repr

end SmallC
