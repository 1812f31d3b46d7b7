/-!
# Nested scopes

Names are declared in nested scopes, the outermost of which holds the parameters of a function. A
name stands for its innermost declaration. The checks on names and the layout of frames both use
these scopes, so they agree on what a name stands for.
-/

namespace SmallC

/-- The names declared in one scope, the newest first. -/
abbrev Scope (α : Type) := List (String × α)

/-- A nonempty stack of scopes. -/
structure Scopes (α : Type) where
  innermost : Scope α
  /-- The scopes around the innermost one, from the inside out. -/
  enclosing : List (Scope α)
  deriving Repr

namespace Scope

/-- Changes what a name of a scope stands for. -/
def modify (name : String) (change : α → α) : Scope α → Scope α
  | [] => []
  | (other, value) :: rest =>
    if name == other then (other, change value) :: rest
    else (other, value) :: modify name change rest

/-- Whether a scope declares a name. -/
def declares (scope : Scope α) (name : String) : Bool :=
  (scope.lookup name).isSome

end Scope

namespace Scopes

/-- A stack of one scope. -/
def single (scope : Scope α) : Scopes α :=
  ⟨scope, []⟩

/-- All scopes, from the inside out. -/
def all (scopes : Scopes α) : List (Scope α) :=
  scopes.innermost :: scopes.enclosing

/-- The number of scopes. -/
def depth (scopes : Scopes α) : Nat :=
  scopes.all.length

/-- What a name stands for: its innermost declaration. -/
def lookup? (scopes : Scopes α) (name : String) : Option α :=
  scopes.all.findSome? (·.lookup name)

/-- Whether the innermost scope declares a name. -/
def declaresHere (scopes : Scopes α) (name : String) : Bool :=
  Scope.declares scopes.innermost name

/-- Whether a declaration in the innermost scope hides a parameter from the body of a function: the
scope right above the parameters may not do so. -/
def hidesParameter (scopes : Scopes α) (name : String) : Bool :=
  match scopes.enclosing with
  | [parameters] => Scope.declares parameters name
  | _ => false

/-- Declares a name in the innermost scope. -/
def declare (scopes : Scopes α) (name : String) (value : α) : Scopes α :=
  { scopes with innermost := (name, value) :: scopes.innermost }

/-- Opens a scope. -/
def enter (scopes : Scopes α) : Scopes α :=
  ⟨[], scopes.innermost :: scopes.enclosing⟩

/-- Closes the innermost scope, unless it is the only one. -/
def leave? (scopes : Scopes α) : Option (Scopes α) :=
  match scopes.enclosing with
  | [] => none
  | outer :: others => some ⟨outer, others⟩

/-- Changes what a name stands for in the first of a list of scopes that declares it. -/
def modifyIn (name : String) (change : α → α) : List (Scope α) → List (Scope α)
  | [] => []
  | scope :: others =>
    if Scope.declares scope name then Scope.modify name change scope :: others
    else scope :: modifyIn name change others

/-- Changes what a name stands for at its innermost declaration. -/
def modify (scopes : Scopes α) (name : String) (change : α → α) : Scopes α :=
  if Scope.declares scopes.innermost name then
    { scopes with innermost := Scope.modify name change scopes.innermost }
  else
    { scopes with enclosing := modifyIn name change scopes.enclosing }

@[simp]
theorem depth_single (scope : Scope α) : (single scope).depth = 1 :=
  rfl

@[simp]
theorem depth_enter (scopes : Scopes α) : scopes.enter.depth = scopes.depth + 1 :=
  rfl

/-- A scope that was opened can be closed. -/
@[simp]
theorem leave?_enter (scopes : Scopes α) : scopes.enter.leave? = some scopes :=
  rfl

/-- A new declaration is what its name stands for. -/
@[simp]
theorem lookup?_declare_self (scopes : Scopes α) (name : String) (value : α) :
    (scopes.declare name value).lookup? name = some value := by
  simp [lookup?, all, declare]

end Scopes

end SmallC
