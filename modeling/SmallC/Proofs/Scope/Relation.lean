import SmallC.Graph.Basic
import SmallC.Proofs.Tree.WellFormed

/-!
# Related stacks of scopes

The checks on names, the layout of a frame and a run of the program each keep a stack of scopes, with
different values under the same names.  Related stacks have the same shape, so a name that stands for
something in one stands for something related in the other.  The stack of a graph also holds
temporaries; related to the others is what it holds beside them.
-/

namespace SmallC

variable {α β : Type}

/-! ## Levels -/

@[simp]
theorem Scopes.all_enter (scopes : Scopes α) : scopes.enter.all = [] :: scopes.all :=
  rfl

/-- Closing the innermost scope takes it off the list of all scopes. -/
theorem Scopes.all_of_leave? {scopes outer : Scopes α} (left : scopes.leave? = some outer) :
    scopes.all = scopes.innermost :: outer.all := by
  obtain ⟨innermost, _ | ⟨nextScope, others⟩⟩ := scopes
  · cases left
  · cases left
    rfl

/-! ## Names -/

/-- What a name stands for in a scope is declared there under that name. -/
theorem Scope.mem_of_lookup {scope : Scope α} {name : String} {value : α}
    (found : scope.lookup name = some value) : (name, value) ∈ scope := by
  obtain ⟨before, after, rfl, -⟩ := List.lookup_eq_some_iff.mp found
  simp

theorem Scopes.mem_flatten_of_lookup {scopes : List (Scope α)} {name : String} {value : α}
    (found : scopes.findSome? (·.lookup name) = some value) : (name, value) ∈ scopes.flatten := by
  obtain ⟨scope, member, foundHere⟩ := List.exists_of_findSome?_eq_some found
  exact List.mem_flatten.mpr ⟨scope, member, Scope.mem_of_lookup foundHere⟩

/-- What a name stands for is declared under that name in some scope. -/
theorem Scopes.mem_of_lookup? {scopes : Scopes α} {name : String} {value : α}
    (found : scopes.lookup? name = some value) : (name, value) ∈ scopes.all.flatten :=
  mem_flatten_of_lookup found

/-! ## Related stacks -/

/-- Related scopes declare the same names in the same order, with related values. -/
def Scope.Related (R : α → β → Prop) : Scope α → Scope β → Prop :=
  List.Forall₂ fun first second => first.1 = second.1 ∧ R first.2 second.2

/-- Related stacks have related scopes at every level. -/
structure Scopes.Related (R : α → β → Prop) (left : Scopes α) (right : Scopes β) : Prop where
  innermost : Scope.Related R left.innermost right.innermost
  enclosing : List.Forall₂ (Scope.Related R) left.enclosing right.enclosing

theorem isSome_eq_of_rel {R : α → β → Prop} {left : Option α} {right : Option β}
    (related : Option.Rel R left right) : left.isSome = right.isSome := by
  cases related <;> rfl

namespace Scope.Related

variable {R : α → β → Prop} {left : Scope α} {right : Scope β}

theorem lookup (related : Related R left right) (name : String) :
    Option.Rel R (left.lookup name) (right.lookup name) := by
  induction related with
  | nil => exact .none
  | @cons first second _ _ same _ ih =>
    obtain ⟨firstName, firstValue⟩ := first
    obtain ⟨secondName, secondValue⟩ := second
    obtain ⟨rfl, valuesRelated⟩ := same
    rw [List.lookup_cons, List.lookup_cons]
    by_cases name_eq : (name == firstName) = true
    · simpa only [name_eq, if_true] using Option.Rel.some valuesRelated
    · simpa only [name_eq] using ih

theorem declares (related : Related R left right) (name : String) :
    Scope.declares left name = Scope.declares right name :=
  isSome_eq_of_rel (related.lookup name)

end Scope.Related

namespace Scopes.Related

variable {R : α → β → Prop} {left : Scopes α} {right : Scopes β}

section

variable (related : Related R left right)
include related

theorem all : List.Forall₂ (Scope.Related R) left.all right.all :=
  .cons related.innermost related.enclosing

section

variable (name : String)
include name

/-- A name stands for nothing in both stacks or for related values. -/
theorem lookup? : Option.Rel R (left.lookup? name) (right.lookup? name) := by
  unfold Scopes.lookup?
  generalize left.all = leftScopes, right.all = rightScopes, related.all = scopesRelated
  induction scopesRelated with
  | nil => exact .none
  | cons first _ ih =>
    rw [List.findSome?_cons, List.findSome?_cons]
    have here := first.lookup name
    revert here
    generalize List.lookup name _ = leftFound
    generalize List.lookup name _ = rightFound
    rintro (valuesRelated | _)
    · exact .some valuesRelated
    · exact ih

theorem isSome_lookup? : (left.lookup? name).isSome = (right.lookup? name).isSome :=
  isSome_eq_of_rel (related.lookup? name)

theorem declaresHere : left.declaresHere name = right.declaresHere name :=
  related.innermost.declares name

theorem hidesParameter : left.hidesParameter name = right.hidesParameter name := by
  obtain ⟨leftInnermost, leftEnclosing⟩ := left
  obtain ⟨rightInnermost, rightEnclosing⟩ := right
  obtain ⟨-, enclosing⟩ := related
  cases enclosing with
  | nil => rfl
  | cons first others =>
    cases others with
    | nil => exact first.declares name
    | cons _ _ => rfl

theorem declare {value : α} {other : β} (valuesRelated : R value other) :
    Related R (left.declare name value) (right.declare name other) :=
  ⟨.cons ⟨rfl, valuesRelated⟩ related.innermost, related.enclosing⟩

end

theorem enter : Related R left.enter right.enter :=
  ⟨.nil, related.all⟩

/-- Closing the innermost scopes of related stacks leaves related stacks. -/
theorem leave? : Option.Rel (Related R) left.leave? right.leave? := by
  obtain ⟨leftInnermost, leftEnclosing⟩ := left
  obtain ⟨rightInnermost, rightEnclosing⟩ := right
  obtain ⟨-, enclosing⟩ := related
  cases enclosing with
  | nil => exact .none
  | cons first others => exact .some ⟨first, others⟩

theorem imp {S : α → β → Prop} (weaker : ∀ value other, R value other → S value other) :
    Related S left right := by
  have scopes (first : Scope α) (second : Scope β) (scopesRelated : Scope.Related R first second) :
      Scope.Related S first second :=
    List.Forall₂.imp (fun _ _ entry => ⟨entry.1, weaker _ _ entry.2⟩) scopesRelated
  exact ⟨scopes _ _ related.innermost, related.enclosing.imp scopes⟩

end

end Scopes.Related

/-! ## Changing one side -/

section Modify

variable {R : α → β → Prop} {change : α → α}

/-- Changing a value of one scope keeps it related if every value stays related. -/
theorem Scope.Related.modify_left {left : Scope α} {right : Scope β} (related : Related R left right)
    (name : String) (keeps : ∀ value other, R value other → R (change value) other) :
    Related R (Scope.modify name change left) right := by
  induction related with
  | nil => exact .nil
  | @cons first second _ _ same others ih =>
    obtain ⟨firstName, firstValue⟩ := first
    rw [Scope.modify]
    split
    · exact .cons ⟨same.1, keeps _ _ same.2⟩ others
    · exact .cons same ih

theorem Scopes.Related.modify_left {left : Scopes α} {right : Scopes β}
    (related : Related R left right) (name : String)
    (keeps : ∀ value other, R value other → R (change value) other) :
    Related R (left.modify name change) right := by
  have enclosing (scopes : List (Scope α)) (others : List (Scope β))
      (scopesRelated : List.Forall₂ (Scope.Related R) scopes others) :
      List.Forall₂ (Scope.Related R) (Scopes.modifyIn name change scopes) others := by
    induction scopesRelated with
    | nil => exact .nil
    | cons first rest ih =>
      rw [Scopes.modifyIn]
      split
      · exact .cons (first.modify_left name keeps) rest
      · exact .cons first ih
  unfold Scopes.modify
  split
  · exact ⟨related.innermost.modify_left name keeps, related.enclosing⟩
  · exact ⟨related.innermost, enclosing _ _ related.enclosing⟩

end Modify

/-! ## Temporaries -/

/-- Whether a name is the name of a temporary. -/
def isTemporary (name : String) : Bool :=
  name.toList.head? == some '!'

/-- Names of programs are not names of temporaries. -/
theorem isTemporary_of_isWord {name : String} (word : isWord name = true) :
    isTemporary name = false := by
  unfold isWord at word
  split at word
  · contradiction
  · rename_i first others name_eq
    simp only [isTemporary, name_eq, List.head?_cons]
    by_contra bang
    have first_eq : first = '!' := by simpa using bang
    simp [first_eq, Piece.isWordStart] at word

@[simp]
theorem isTemporary_temporaryName (number : Nat) :
    isTemporary (Graph.temporaryName number) = true := by
  simp [isTemporary, Graph.temporaryName]

/-- Different temporaries have different names. -/
theorem temporaryName_injective : Function.Injective Graph.temporaryName := by
  intro first second names_eq
  have digits_eq : Nat.toDigits 10 first = Nat.toDigits 10 second := by
    simpa [Graph.temporaryName] using congrArg String.toList names_eq
  rw [← Nat.ofDigitChars_ten_toDigits (n := first), digits_eq, Nat.ofDigitChars_ten_toDigits]

/-! ## Beside temporaries -/

/-- What a scope declares beside temporaries. -/
def Scope.named (scope : Scope α) : Scope α :=
  scope.filter fun entry => !isTemporary entry.1

/-- What a stack of scopes declares beside temporaries. -/
def Scopes.named (scopes : Scopes α) : Scopes α :=
  ⟨Scope.named scopes.innermost, scopes.enclosing.map Scope.named⟩

theorem Scope.lookup_named {name : String} (variableName : isTemporary name = false)
    (scope : Scope α) : (Scope.named scope).lookup name = scope.lookup name := by
  induction scope with
  | nil => rfl
  | cons entry rest ih =>
    obtain ⟨other, value⟩ := entry
    by_cases name_eq : name = other
    · subst name_eq
      simp [Scope.named, variableName]
    · have unequal : (name == other) = false := by simpa using name_eq
      rw [List.lookup_cons, unequal, ← ih]
      by_cases temporary : isTemporary other = true
      · simp [Scope.named, temporary]
      · simp [Scope.named, temporary, List.lookup_cons, unequal]

namespace Scopes

variable {name : String} (scopes : Scopes α)

theorem all_named : scopes.named.all = scopes.all.map Scope.named :=
  rfl

section

variable (variableName : isTemporary name = false)
include variableName

theorem lookup?_named : scopes.named.lookup? name = scopes.lookup? name := by
  simp only [lookup?, all_named, List.findSome?_map]
  congr 1
  funext scope
  exact Scope.lookup_named variableName scope

theorem declaresHere_named : scopes.named.declaresHere name = scopes.declaresHere name := by
  simp [declaresHere, Scope.declares, named, Scope.lookup_named variableName]

theorem hidesParameter_named : scopes.named.hidesParameter name = scopes.hidesParameter name := by
  obtain ⟨innermost, enclosing⟩ := scopes
  match enclosing with
  | [] => rfl
  | [parameters] =>
    simp [hidesParameter, Scope.declares, named, Scope.lookup_named variableName]
  | _ :: _ :: _ => rfl

theorem named_declare (value : α) :
    (scopes.declare name value).named = scopes.named.declare name value := by
  simp [named, declare, Scope.named, variableName]

end

theorem named_declare_temporary (temporary : isTemporary name = true) (value : α) :
    (scopes.declare name value).named = scopes.named := by
  simp [named, declare, Scope.named, temporary]

@[simp]
theorem named_enter : scopes.enter.named = scopes.named.enter :=
  rfl

theorem leave?_named : scopes.named.leave? = scopes.leave?.map named := by
  obtain ⟨innermost, _ | ⟨outer, others⟩⟩ := scopes <;> rfl

end Scopes

end SmallC
