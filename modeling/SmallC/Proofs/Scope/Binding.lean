import SmallC.Proofs.Scope.Relation
import SmallC.Proofs.Tree.Walk

/-!
# What names stand for

A name stands for the last declaration of it whose scope is still open.  To find it on a walk one
goes back from the place of the name; a scope that was closed in between is skipped with everything
in it.  A stack of scopes that follows the walk finds the same declarations.
-/

namespace SmallC

/-! ## Going back -/

/-- The position of the declaration that a name stands for after some events, the newest of which
comes first, in the scope around as many scopes as are given: these are closed by then. -/
def declarationOf? (name : String) : Nat → List ScopeEvent → Option Nat
  | _, [] => none
  | closed, .enter :: past => declarationOf? name (closed - 1) past
  | closed, .leave :: past => declarationOf? name (closed + 1) past
  | closed, .parameter introduced :: past =>
    if closed = 0 ∧ introduced.name = name then some past.length
    else declarationOf? name closed past
  | closed, .declare introduced :: past =>
    if closed = 0 ∧ introduced.name = name then some past.length
    else declarationOf? name closed past
  | closed, .read _ :: past => declarationOf? name closed past
  | closed, .write _ :: past => declarationOf? name closed past

/-- The positions of the declarations that stand directly in the scope in which some events end, the
newest of which comes first. -/
def declaredHere : Nat → List ScopeEvent → List Nat
  | _, [] => []
  | closed, .enter :: past => if closed = 0 then [] else declaredHere (closed - 1) past
  | closed, .leave :: past => declaredHere (closed + 1) past
  | closed, .parameter _ :: past =>
    if closed = 0 then past.length :: declaredHere 0 past else declaredHere closed past
  | closed, .declare _ :: past =>
    if closed = 0 then past.length :: declaredHere 0 past else declaredHere closed past
  | closed, .read _ :: past => declaredHere closed past
  | closed, .write _ :: past => declaredHere closed past

/-- The position of the declaration that an event refers to, after some events. -/
def ScopeEvent.binding? (past : List ScopeEvent) : ScopeEvent → Option Nat
  | .read name => declarationOf? name.name 0 past
  | .write name => declarationOf? name.name 0 past
  | _ => none

variable {name : String} {declaration closed : Nat} {past : List ScopeEvent}

/-- A declaration comes before what refers to it. -/
theorem declarationOf?_lt (found : declarationOf? name closed past = some declaration) :
    declaration < past.length := by
  induction past generalizing closed with
  | nil => cases found
  | cons event past ih =>
    rw [List.length_cons]
    cases event with
    | parameter introduced | declare introduced =>
      rw [declarationOf?] at found
      split at found
      · cases found
        exact Nat.lt_succ_self _
      · exact Nat.lt_succ_of_lt (ih found)
    | enter | leave | read | write => exact Nat.lt_succ_of_lt (ih found)

theorem lt_of_mem_declaredHere (member : declaration ∈ declaredHere closed past) :
    declaration < past.length := by
  induction past generalizing closed with
  | nil => cases member
  | cons event past ih =>
    rw [List.length_cons]
    cases event with
    | parameter introduced | declare introduced =>
      rw [declaredHere] at member
      split at member
      · rcases List.mem_cons.mp member with rfl | earlier
        · exact Nat.lt_succ_self _
        · exact Nat.lt_succ_of_lt (ih earlier)
      · exact Nat.lt_succ_of_lt (ih member)
    | enter =>
      rw [declaredHere] at member
      split at member
      · cases member
      · exact Nat.lt_succ_of_lt (ih member)
    | leave | read | write => exact Nat.lt_succ_of_lt (ih member)

theorem ScopeEvent.binding?_lt {event : ScopeEvent}
    (bound : event.binding? past = some declaration) : declaration < past.length := by
  cases event with
  | read name | write name => exact declarationOf?_lt bound
  | enter | leave | parameter | declare => cases bound

/-- Events that come later only change how many scopes are closed. -/
theorem exists_declarationOf?_of_append {later : List ScopeEvent}
    (found : declarationOf? name closed (later ++ past) = some declaration)
    (early : declaration < past.length) :
    ∃ skipped, declarationOf? name skipped past = some declaration := by
  induction later generalizing closed with
  | nil => exact ⟨closed, found⟩
  | cons event later ih =>
    rw [List.cons_append] at found
    cases event with
    | parameter introduced | declare introduced =>
      rw [declarationOf?] at found
      split at found
      · cases found
        rw [List.length_append] at early
        exact absurd early (Nat.not_lt.mpr (Nat.le_add_left _ _))
      · exact ih found
    | enter | leave | read | write => exact ih found

theorem exists_mem_declaredHere_of_append {later : List ScopeEvent}
    (member : declaration ∈ declaredHere closed (later ++ past))
    (early : declaration < past.length) :
    ∃ skipped, declaration ∈ declaredHere skipped past := by
  induction later generalizing closed with
  | nil => exact ⟨closed, member⟩
  | cons event later ih =>
    rw [List.cons_append] at member
    cases event with
    | parameter introduced | declare introduced =>
      rw [declaredHere] at member
      split at member
      · rcases List.mem_cons.mp member with rfl | earlier
        · rw [List.length_append] at early
          exact absurd early (Nat.not_lt.mpr (Nat.le_add_left _ _))
        · exact ih earlier
      · exact ih member
    | enter =>
      rw [declaredHere] at member
      split at member
      · cases member
      · exact ih member
    | leave | read | write => exact ih member

/-- A declaration of a scope is not found from outside of that scope, by its name or otherwise. -/
theorem not_found_of_mem_declaredHere (member : declaration ∈ declaredHere closed past)
    (more : Nat) :
    (∀ name, declarationOf? name (closed + more + 1) past ≠ some declaration) ∧
      declaration ∉ declaredHere (closed + more + 1) past := by
  induction past generalizing closed with
  | nil => cases member
  | cons event past ih =>
    cases event with
    | parameter introduced | declare introduced =>
      simp only [declarationOf?, declaredHere, Nat.add_eq_zero_iff, Nat.one_ne_zero, and_false,
        false_and, if_false]
      rw [declaredHere] at member
      by_cases inside : closed = 0
      · rw [if_pos inside, List.mem_cons] at member
        rcases member with rfl | earlier
        · exact ⟨fun _ found => Nat.lt_irrefl _ (declarationOf?_lt found),
            fun found => Nat.lt_irrefl _ (lt_of_mem_declaredHere found)⟩
        · rw [inside]
          exact ih earlier
      · rw [if_neg inside] at member
        exact ih member
    | enter =>
      rw [declaredHere] at member
      by_cases inside : closed = 0
      · rw [if_pos inside] at member
        cases member
      · rw [if_neg inside] at member
        have fewer := ih member
        have count_eq : closed - 1 + more + 1 = closed + more + 1 - 1 := by omega
        rw [count_eq] at fewer
        simpa only [declarationOf?, declaredHere, Nat.add_eq_zero_iff, Nat.one_ne_zero,
          and_false, if_false] using fewer
    | leave =>
      have fewer := ih member
      have count_eq : closed + 1 + more + 1 = closed + more + 1 + 1 := by omega
      rw [count_eq] at fewer
      exact fewer
    | read | write => exact ih member

/-- Once its scope is closed, nothing leads to a declaration any more. -/
theorem not_found_after_leave (member : declaration ∈ declaredHere 0 past)
    (later : List ScopeEvent) :
    (∀ name, declarationOf? name closed (later ++ .leave :: past) ≠ some declaration) ∧
      declaration ∉ declaredHere closed (later ++ .leave :: past) := by
  have early : declaration < (ScopeEvent.leave :: past).length :=
    Nat.lt_succ_of_lt (lt_of_mem_declaredHere member)
  constructor
  · intro name found
    rcases exists_declarationOf?_of_append found early with ⟨skipped, foundBefore⟩
    rw [declarationOf?, ← Nat.zero_add skipped] at foundBefore
    exact (not_found_of_mem_declaredHere member skipped).1 name foundBefore
  · intro found
    rcases exists_mem_declaredHere_of_append found early with ⟨skipped, foundBefore⟩
    rw [declaredHere, ← Nat.zero_add skipped] at foundBefore
    exact (not_found_of_mem_declaredHere member skipped).2 foundBefore

/-! ## Stacks of scopes -/

/-- A stack of scopes finds declarations by name as going back does, from the innermost scope and
from those around it.  What it holds stands for their positions. -/
def Resolves {α : Type} (valueOf : Nat → α) (past : List ScopeEvent) (scopes : Scopes α) : Prop :=
  ∀ name closed, (scopes.all.drop closed).findSome? (·.lookup name) =
    (declarationOf? name closed past).map valueOf

/-- A stack of scopes holds the positions of declarations scope by scope. -/
def Collects (past : List ScopeEvent) (stack : Scopes Nat) : Prop :=
  ∀ closed, declaredHere closed past = ((stack.all.drop closed).headD []).map Prod.snd

namespace Resolves

variable {α : Type} {valueOf : Nat → α} {scopes outer : Scopes α}

theorem lookup? (resolves : Resolves valueOf past scopes) (name : String) :
    scopes.lookup? name = (declarationOf? name 0 past).map valueOf :=
  resolves name 0

theorem single (valueOf : Nat → α) : Resolves valueOf [] (.single []) := by
  intro name closed
  cases closed with
  | zero => rfl
  | succ closed => simp [declarationOf?, Scopes.all, Scopes.single]

section

variable (resolves : Resolves valueOf past scopes)
include resolves

/-- Only what stands for positions in the past matters. -/
theorem congr {other : Nat → α} (same : ∀ position < past.length, valueOf position = other position) :
    Resolves other past scopes := by
  intro name closed
  rw [resolves name closed]
  cases found : declarationOf? name closed past with
  | none => rfl
  | some position => rw [Option.map_some, Option.map_some, same position (declarationOf?_lt found)]

theorem enter : Resolves valueOf (.enter :: past) scopes.enter := by
  intro name closed
  rw [declarationOf?, ← resolves name]
  cases closed <;> rfl

theorem leave (left : scopes.leave? = some outer) : Resolves valueOf (.leave :: past) outer := by
  intro name closed
  rw [declarationOf?, ← resolves name, Scopes.all_of_leave? left, List.drop_succ_cons]

/-- A declaration is found under its name at its own position. -/
theorem introduce {event : ScopeEvent} (introduced : Ident)
    (isDeclaration : event = .declare introduced ∨ event = .parameter introduced) :
    Resolves valueOf (event :: past) (scopes.declare introduced.name (valueOf past.length)) := by
  intro name closed
  have event_eq : declarationOf? name closed (event :: past) =
      if closed = 0 ∧ introduced.name = name then some past.length
      else declarationOf? name closed past := by
    rcases isDeclaration with rfl | rfl <;> rfl
  rw [event_eq, apply_ite (Option.map valueOf), ← resolves name]
  cases closed with
  | zero =>
    by_cases same : introduced.name = name
    · subst same
      simp [Scopes.all, Scopes.declare]
    · have unequal : (name == introduced.name) = false := by simpa using Ne.symm same
      simp [Scopes.all, Scopes.declare, same, List.findSome?_cons, List.lookup_cons, unequal]
  | succ closed => simp [Scopes.all, Scopes.declare]

end

end Resolves

namespace Collects

variable {stack outer : Scopes Nat}

theorem single : Collects [] (.single []) := by
  intro closed
  cases closed with
  | zero => rfl
  | succ closed => simp [declaredHere, Scopes.all, Scopes.single]

section

variable (collects : Collects past stack)
include collects

theorem enter : Collects (.enter :: past) stack.enter := by
  intro closed
  cases closed with
  | zero => rfl
  | succ closed => exact collects closed

theorem leave (left : stack.leave? = some outer) : Collects (.leave :: past) outer := by
  intro closed
  rw [declaredHere, collects, Scopes.all_of_leave? left, List.drop_succ_cons]

theorem introduce {event : ScopeEvent} (introduced : Ident)
    (isDeclaration : event = .declare introduced ∨ event = .parameter introduced) :
    Collects (event :: past) (stack.declare introduced.name past.length) := by
  intro closed
  have event_eq : declaredHere closed (event :: past) =
      if closed = 0 then past.length :: declaredHere 0 past else declaredHere closed past := by
    rcases isDeclaration with rfl | rfl <;> rfl
  rw [event_eq]
  cases closed with
  | zero =>
    rw [if_pos rfl, collects 0]
    rfl
  | succ closed =>
    rw [if_neg (Nat.succ_ne_zero closed), collects]
    rfl

end

end Collects

/-! ## Bindings of a walk -/

namespace Walk

/-- The declarations that the events of a walk refer to, after some events. -/
def bindingsAfter (past : List ScopeEvent) : Walk → List (Option Nat)
  | [] => []
  | event :: rest => event.binding? past :: bindingsAfter (event :: past) rest

/-- The declarations that the events of a walk refer to, by their positions in the walk. -/
def bindings (walk : Walk) : List (Option Nat) :=
  bindingsAfter [] walk

/-- An event of a walk refers to a declaration. -/
def Refers (walk : Walk) (place declaration : Nat) : Prop :=
  walk.bindings[place]? = some (some declaration)

@[simp]
theorem length_bindingsAfter (past : List ScopeEvent) (walk : Walk) :
    (bindingsAfter past walk).length = walk.length := by
  induction walk generalizing past with
  | nil => rfl
  | cons event rest ih => rw [bindingsAfter, List.length_cons, List.length_cons, ih]

theorem bindingsAfter_append (past : List ScopeEvent) (first second : Walk) :
    bindingsAfter past (first ++ second) =
      bindingsAfter past first ++ bindingsAfter (first.reverse ++ past) second := by
  induction first generalizing past with
  | nil => rfl
  | cons event rest ih =>
    rw [List.cons_append, bindingsAfter, bindingsAfter, ih, List.cons_append, List.reverse_cons,
      List.append_assoc]
    rfl

variable {walk done rest : Walk} {event : ScopeEvent} {place : Nat}

theorem refers_append_iff (early : place < done.length) :
    Refers (done ++ rest) place declaration ↔ Refers done place declaration := by
  unfold Refers bindings
  rw [bindingsAfter_append, List.getElem?_append_left (by rwa [length_bindingsAfter])]

/-- What comes right after some events refers to what is in scope after them. -/
theorem refers_length_iff :
    Refers (done ++ event :: rest) done.length declaration ↔
      event.binding? done.reverse = some declaration := by
  unfold Refers bindings
  rw [bindingsAfter_append, List.getElem?_append_right (by rw [length_bindingsAfter]),
    length_bindingsAfter, Nat.sub_self, List.append_nil, bindingsAfter, List.getElem?_cons_zero,
    Option.some.injEq]

theorem Refers.lt_length (refers : Refers walk place declaration) : place < walk.length := by
  rcases List.getElem?_eq_some_iff.mp refers with ⟨early, -⟩
  rwa [bindings, length_bindingsAfter] at early

/-- The event at a place, with what comes before and after it. -/
theorem exists_split_of_lt (early : place < walk.length) :
    ∃ done : Walk, ∃ event rest, walk = done ++ event :: rest ∧ done.length = place := by
  refine ⟨walk.take place, walk[place], walk.drop (place + 1), ?_, ?_⟩
  · rw [List.cons_getElem_drop_succ, List.take_append_drop]
  · exact List.length_take_of_le early.le

theorem Refers.declaration_lt (refers : Refers walk place declaration) : declaration < place := by
  rcases exists_split_of_lt refers.lt_length with ⟨done, event, rest, rfl, rfl⟩
  rw [refers_length_iff] at refers
  simpa using ScopeEvent.binding?_lt refers

/-! ## Scopes that close -/

/-- The scope of a declaration closes at a place. -/
def ClosedAt (walk : Walk) (declaration place : Nat) : Prop :=
  walk[place]? = some .leave ∧ declaration ∈ declaredHere 0 (walk.take place).reverse

theorem ClosedAt.lt_length (closes : ClosedAt walk declaration place) : place < walk.length :=
  (List.getElem?_eq_some_iff.mp closes.1).1

theorem ClosedAt.declaration_lt (closes : ClosedAt walk declaration place) :
    declaration < place := by
  have early := lt_of_mem_declaredHere closes.2
  rw [List.length_reverse, List.length_take_of_le closes.lt_length.le] at early
  exact early

theorem closedAt_append_iff (early : place < done.length) :
    ClosedAt (done ++ rest) declaration place ↔ ClosedAt done declaration place := by
  unfold ClosedAt
  rw [List.getElem?_append_left early, List.take_append_of_le_length early.le]

theorem closedAt_length_iff :
    ClosedAt (done ++ event :: rest) declaration done.length ↔
      event = .leave ∧ declaration ∈ declaredHere 0 done.reverse := by
  unfold ClosedAt
  rw [List.getElem?_append_right le_rfl, Nat.sub_self, List.getElem?_cons_zero, Option.some.injEq,
    List.take_left]

/-- What stands before a later place, from there back to an earlier one. -/
theorem exists_reverse_take_eq {later : Nat} (found : walk[place]? = some event)
    (order : place < later) :
    ∃ between, (walk.take later).reverse = between ++ event :: (walk.take place).reverse := by
  rcases List.getElem?_eq_some_iff.mp found with ⟨early, -⟩
  rcases exists_split_of_lt early with ⟨done, other, rest, rfl, rfl⟩
  rw [List.getElem?_append_right le_rfl, Nat.sub_self, List.getElem?_cons_zero] at found
  cases found
  rcases Nat.exists_eq_add_of_lt order with ⟨more, rfl⟩
  refine ⟨(rest.take more).reverse, ?_⟩
  rw [List.take_left, Nat.add_assoc, List.take_append,
    List.take_of_length_le (Nat.le_add_right _ _), Nat.add_sub_cancel_left, List.take_succ_cons]
  simp

/-- Nothing refers to a declaration after its scope is closed. -/
theorem ClosedAt.refers_lt {later : Nat} (closes : ClosedAt walk declaration place)
    (refers : Refers walk later declaration) : later < place := by
  by_contra notBefore
  rcases Nat.lt_or_eq_of_le (Nat.le_of_not_lt notBefore) with order | rfl
  · rcases exists_reverse_take_eq closes.1 order with ⟨between, past_eq⟩
    rcases exists_split_of_lt refers.lt_length with ⟨done, event, rest, rfl, rfl⟩
    rw [List.take_left] at past_eq
    rw [refers_length_iff, past_eq] at refers
    cases event with
    | read name | write name => exact (not_found_after_leave closes.2 between).1 _ refers
    | enter | leave | parameter | declare => cases refers
  · rcases exists_split_of_lt refers.lt_length with ⟨done, event, rest, rfl, rfl⟩
    rcases closedAt_length_iff.mp closes with ⟨rfl, -⟩
    cases refers_length_iff.mp refers

/-- A scope closes once. -/
theorem ClosedAt.place_eq {other : Nat} (closes : ClosedAt walk declaration place)
    (closesOther : ClosedAt walk declaration other) : place = other := by
  have notLater {first second : Nat} (closesFirst : ClosedAt walk declaration first)
      (closesSecond : ClosedAt walk declaration second) : ¬ first < second := by
    intro order
    rcases exists_reverse_take_eq closesFirst.1 order with ⟨between, past_eq⟩
    have member := closesSecond.2
    rw [past_eq] at member
    exact (not_found_after_leave closesFirst.2 between).2 member
  exact Nat.le_antisymm (Nat.le_of_not_lt (notLater closesOther closes))
    (Nat.le_of_not_lt (notLater closes closesOther))

end Walk

end SmallC
