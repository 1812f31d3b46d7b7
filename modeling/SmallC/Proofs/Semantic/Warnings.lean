import SmallC.Parse.Program
import SmallC.Proofs.Semantic.Discipline
import SmallC.Proofs.Semantic.Following

/-!
# Warnings of checked programs

A check that succeeds gives the warnings that the discipline of variable use asks for.  Along a walk
the scopes of the check are followed by a stack of scopes that holds positions of declarations, and
how far a variable has come says which reads and writes of it have passed.
-/

namespace SmallC

open Semantic Walk

/-! ## Stacks along a walk -/

/-- The scopes of a stack hold parameters at the bottom and variables above, each under its name and
at its position, and no name twice in the scope of a variable. -/
inductive Layered (done : Walk) : List (Scope Nat) → Prop where
  | parameters {scope : Scope Nat} :
      (∀ entry ∈ scope, ∃ name, done[entry.2]? = some (.parameter name)) → Layered done [scope]
  | locals {scope : Scope Nat} {others : List (Scope Nat)} :
      (∀ entry ∈ scope, ∃ name, done[entry.2]? = some (.declare name) ∧ name.name = entry.1) →
      (scope.map Prod.fst).Nodup → Layered done others → Layered done (scope :: others)

section Layered

variable {done : Walk} {event : ScopeEvent} {levels : List (Scope Nat)}

theorem Layered.concat (layered : Layered done levels) : Layered (done ++ [event]) levels := by
  induction layered with
  | parameters each =>
    refine .parameters fun entry member => ?_
    rcases each entry member with ⟨name, found⟩
    exact ⟨name, getElem?_concat_eq_some_iff.mpr (.inl found)⟩
  | locals each nodup _ ih =>
    refine .locals (fun entry member => ?_) nodup ih
    rcases each entry member with ⟨name, found, same⟩
    exact ⟨name, getElem?_concat_eq_some_iff.mpr (.inl found), same⟩

/-- What a stack holds are positions in the walk. -/
theorem Layered.lt_length (layered : Layered done levels) {entry : String × Nat}
    (member : entry ∈ levels.flatten) : entry.2 < done.length := by
  induction layered with
  | parameters each =>
    rw [List.flatten_singleton] at member
    rcases each entry member with ⟨name, found⟩
    exact (List.getElem?_eq_some_iff.mp found).1
  | locals each _ _ ih =>
    rw [List.flatten_cons, List.mem_append] at member
    rcases member with here | above
    · rcases each entry here with ⟨name, found, -⟩
      exact (List.getElem?_eq_some_iff.mp found).1
    · exact ih above

end Layered

/-- A stack that follows a walk: it holds the declarations whose scopes are open. -/
structure Stacked (done : Walk) (stack : Scopes Nat) : Prop where
  resolves : Resolves id done.reverse stack
  collects : Collects done.reverse stack
  layered : Layered done stack.all
  distinct : stack.Distinct
  settled : ∀ declaration name, done[declaration]? = some (.declare name) →
    declaration ∈ stack.all.flatten.map Prod.snd ∨ ∃ place, done.ClosedAt declaration place

namespace Stacked

variable {done : Walk} {stack outer : Scopes Nat}

theorem nil : Stacked [] (.single []) where
  resolves := .single id
  collects := .single
  layered := .parameters fun _ member => (List.not_mem_nil member).elim
  distinct := List.nodup_nil
  settled := fun _ _ found => by cases found

section

variable (stacked : Stacked done stack)
include stacked

/-- Declarations stay settled if those whose scopes are open stay open or are closed by an event. -/
theorem settled_concat {event : ScopeEvent} {positions : List Nat}
    (noDeclaration : ∀ name, event ≠ .declare name)
    (covers : ∀ declaration ∈ stack.all.flatten.map Prod.snd,
      declaration ∈ positions ∨ (done ++ [event]).ClosedAt declaration done.length)
    (declaration : Nat) (name : Ident)
    (found : (done ++ [event])[declaration]? = some (.declare name)) :
    declaration ∈ positions ∨ ∃ place, (done ++ [event]).ClosedAt declaration place := by
  rcases getElem?_concat_eq_some_iff.mp found with before | ⟨-, isDeclaration⟩
  · rcases stacked.settled declaration name before with opened | ⟨place, closes⟩
    · rcases covers declaration opened with stillOpen | closesNow
      · exact .inl stillOpen
      · exact .inr ⟨done.length, closesNow⟩
    · exact .inr ⟨place, (closedAt_append_iff closes.lt_length).mpr closes⟩
  · exact absurd isDeclaration (noDeclaration name)

theorem enter :
    Stacked (done ++ [ScopeEvent.enter]) stack.enter where
  resolves := by
    rw [List.reverse_concat]
    exact stacked.resolves.enter
  collects := by
    rw [List.reverse_concat]
    exact stacked.collects.enter
  layered :=
    .locals (fun _ member => (List.not_mem_nil member).elim) List.nodup_nil stacked.layered.concat
  distinct := stacked.distinct
  settled := stacked.settled_concat nofun fun _ opened => .inl opened

theorem leave (left : stack.leave? = some outer) : Stacked (done ++ [ScopeEvent.leave]) outer := by
  have all_eq := Scopes.all_of_leave? left
  have layered := stacked.layered
  have distinct := stacked.distinct
  unfold Scopes.Distinct at distinct
  rw [all_eq] at layered distinct
  rw [List.flatten_cons, List.map_append] at distinct
  refine ⟨?_, ?_, ?_, distinct.of_append_right, ?_⟩
  · rw [List.reverse_concat]
    exact stacked.resolves.leave left
  · rw [List.reverse_concat]
    exact stacked.collects.leave left
  · cases layered with
    | locals _ _ above => exact above.concat
  · refine stacked.settled_concat nofun fun declaration opened => ?_
    rw [all_eq, List.flatten_cons, List.map_append, List.mem_append] at opened
    rcases opened with here | above
    · have collected := stacked.collects 0
      exact .inr (closedAt_length_iff.mpr ⟨rfl, collected ▸ here⟩)
    · exact .inl above

/-- A new declaration has a new position. -/
theorem distinct_declare (name : String) : (stack.declare name done.length).Distinct := by
  refine List.nodup_cons.mpr ⟨fun member => ?_, stacked.distinct⟩
  rcases List.mem_map.mp member with ⟨entry, known, same⟩
  exact Nat.lt_irrefl _ (same ▸ stacked.layered.lt_length known)

theorem parameter (outermost : stack.enclosing = []) (name : Ident) :
    Stacked (done ++ [ScopeEvent.parameter name]) (stack.declare name.name done.length) where
  resolves := by
    rw [List.reverse_concat, ← List.length_reverse]
    exact stacked.resolves.introduce name (.inr rfl)
  collects := by
    rw [List.reverse_concat, ← List.length_reverse]
    exact stacked.collects.introduce name (.inr rfl)
  layered := by
    have layered := stacked.layered
    rw [Scopes.all, outermost] at layered
    rw [Scopes.all, Scopes.declare, outermost]
    cases layered with
    | parameters each =>
      refine .parameters fun entry member => ?_
      rcases List.mem_cons.mp member with rfl | before
      · exact ⟨name, List.getElem?_concat_length⟩
      · rcases each entry before with ⟨other, found⟩
        exact ⟨other, getElem?_concat_eq_some_iff.mpr (.inl found)⟩
    | locals _ _ above => cases above
  distinct := stacked.distinct_declare name.name
  settled := stacked.settled_concat nofun fun _ opened => .inl (List.mem_cons_of_mem _ opened)

theorem declare {name : Ident} (inside : 1 < stack.depth)
    (fresh : stack.declaresHere name.name = false) :
    Stacked (done ++ [ScopeEvent.declare name]) (stack.declare name.name done.length) where
  resolves := by
    rw [List.reverse_concat, ← List.length_reverse]
    exact stacked.resolves.introduce name (.inl rfl)
  collects := by
    rw [List.reverse_concat, ← List.length_reverse]
    exact stacked.collects.introduce name (.inl rfl)
  layered := by
    have layered : Layered (done ++ [ScopeEvent.declare name]) stack.all := stacked.layered.concat
    rcases stack with ⟨innermost, enclosing⟩
    cases layered with
    | parameters _ => exact absurd inside (Nat.lt_irrefl 1)
    | locals each nodup above =>
      refine .locals (fun entry member => ?_) (List.nodup_cons.mpr ⟨?_, nodup⟩) above
      · rcases List.mem_cons.mp member with rfl | before
        · exact ⟨name, List.getElem?_concat_length, rfl⟩
        · exact each entry before
      · intro known
        rcases List.mem_map.mp known with ⟨entry, member, same⟩
        have unknown : innermost.lookup name.name = none := by
          simpa [Scopes.declaresHere, Scope.declares] using fresh
        have different := List.lookup_eq_none_iff.mp unknown entry member
        rw [same, bne_self_eq_false] at different
        cases different
  distinct := stacked.distinct_declare name.name
  settled := by
    intro declaration other found
    rcases getElem?_concat_eq_some_iff.mp found with before | ⟨rfl, -⟩
    · rcases stacked.settled declaration other before with opened | ⟨place, closes⟩
      · exact .inl (List.mem_cons_of_mem _ opened)
      · exact .inr ⟨place, (closedAt_append_iff closes.lt_length).mpr closes⟩
    · exact .inl List.mem_cons_self

/-- Reads and writes change no scope. -/
theorem use {event : ScopeEvent} {name : Ident} (uses : event = .read name ∨ event = .write name) :
    Stacked (done ++ [event]) stack where
  resolves := by
    rw [List.reverse_concat]
    rcases uses with rfl | rfl <;> exact stacked.resolves
  collects := by
    rw [List.reverse_concat]
    rcases uses with rfl | rfl <;> exact stacked.collects
  layered := stacked.layered.concat
  distinct := stacked.distinct
  settled := by
    refine stacked.settled_concat ?_ fun _ opened => .inl opened
    rcases uses with rfl | rfl <;> nofun

end

end Stacked

/-! ## How far variables have come -/

/-- How far a variable has come says whether it was read, and whether nothing happened to it since
its declaration without a value. -/
structure Fits (done : Walk) (entry : Variable) (declaration : Nat) : Prop where
  known : declaration < done.length
  used_iff : entry.usage = .used ↔ ∃ place, done.ReadAt declaration place
  declared_iff : entry.usage = .declared ↔
    (∃ name, done[declaration]? = some (.declare name)) ∧
      (∀ place, ¬ done.ReadAt declaration place) ∧ ∀ place, ¬ done.WrittenAt declaration place
  span_eq : ∀ name, done[declaration]? = some (.declare name) → entry.span = name.span

namespace Fits

variable {done : Walk} {entry : Variable} {declaration : Nat} {event : ScopeEvent}

section

variable (fits : Fits done entry declaration)
include fits

/-- An event says nothing about the variables that it does not refer to. -/
theorem concat (apart : event.binding? done.reverse ≠ some declaration) :
    Fits (done ++ [event]) entry declaration where
  known := by
    rw [List.length_append]
    exact Nat.lt_add_right _ fits.known
  used_iff := by simp [fits.used_iff, readAt_concat_iff, apart]
  declared_iff := by
    rw [fits.declared_iff, List.getElem?_append_left fits.known]
    simp [readAt_concat_iff, writtenAt_concat_iff, apart]
  span_eq := by
    rw [List.getElem?_append_left fits.known]
    exact fits.span_eq

theorem read {name : Ident}
    (bound : ScopeEvent.binding? done.reverse (.read name) = some declaration) :
    Fits (done ++ [ScopeEvent.read name]) { entry with usage := .used } declaration := by
  have reads : ReadAt (done ++ [ScopeEvent.read name]) declaration done.length :=
    readAt_concat_iff.mpr (.inr ⟨rfl, rfl, bound⟩)
  refine ⟨?_, ?_, ?_, ?_⟩
  · rw [List.length_append]
    exact Nat.lt_add_right _ fits.known
  · exact ⟨fun _ => ⟨done.length, reads⟩, fun _ => rfl⟩
  · exact ⟨nofun, fun ⟨_, unread, _⟩ => absurd reads (unread done.length)⟩
  · rw [List.getElem?_append_left fits.known]
    exact fits.span_eq

theorem write {name : Ident}
    (bound : ScopeEvent.binding? done.reverse (.write name) = some declaration) :
    Fits (done ++ [ScopeEvent.write name]) entry.assigned declaration := by
  have writes : WrittenAt (done ++ [ScopeEvent.write name]) declaration done.length :=
    writtenAt_concat_iff.mpr (.inr ⟨rfl, rfl, bound⟩)
  refine ⟨?_, ?_, ?_, ?_⟩
  · rw [List.length_append]
    exact Nat.lt_add_right _ fits.known
  · have same_used : entry.assigned.usage = .used ↔ entry.usage = .used := by
      unfold Variable.assigned
      split <;> simp_all
    simp [same_used, fits.used_iff, readAt_concat_iff, ScopeEvent.isRead]
  · refine ⟨fun isDeclared => ?_, fun ⟨_, _, unwritten⟩ => absurd writes (unwritten done.length)⟩
    unfold Variable.assigned at isDeclared
    split at isDeclared
    · cases isDeclared
    · contradiction
  · rw [List.getElem?_append_left fits.known]
    intro other found
    have span_eq : entry.assigned.span = entry.span := by
      unfold Variable.assigned
      split <;> rfl
    rw [span_eq]
    exact fits.span_eq other found

end

/-- Nothing refers to a declaration at which a walk ends. -/
theorem not_refers_last (place : Nat) : ¬ Refers (done ++ [event]) place done.length := by
  intro refers
  have early := refers.lt_length
  rw [List.length_append, List.length_singleton] at early
  exact absurd refers.declaration_lt (Nat.not_lt.mpr (Nat.le_of_lt_succ early))

theorem declare (name : Ident) :
    Fits (done ++ [ScopeEvent.declare name]) ⟨.declared, name.span⟩ done.length where
  known := by simp
  used_iff := ⟨nofun, fun ⟨place, reads⟩ => absurd reads.2 (not_refers_last place)⟩
  declared_iff := by
    refine ⟨fun _ => ⟨⟨name, List.getElem?_concat_length⟩, ?_, ?_⟩, fun _ => rfl⟩
    · exact fun place reads => not_refers_last place reads.2
    · exact fun place writes => not_refers_last place writes.2
  span_eq := by
    intro other found
    rw [List.getElem?_concat_length] at found
    cases found
    rfl

theorem parameter (name : Ident) (span : Span) :
    Fits (done ++ [ScopeEvent.parameter name]) ⟨.initialized, span⟩ done.length where
  known := by simp
  used_iff := ⟨nofun, fun ⟨place, reads⟩ => absurd reads.2 (not_refers_last place)⟩
  declared_iff := by
    refine ⟨nofun, fun ⟨⟨other, found⟩, _⟩ => ?_⟩
    rw [List.getElem?_concat_length] at found
    cases found
  span_eq := by
    intro other found
    rw [List.getElem?_concat_length] at found
    cases found

end Fits

/-! ## Warnings at one event -/

section Gets

variable {done : Walk} {declaration : Nat} {warning : Warning}

/-- What is given at a read: a warning about its variable, if nothing happened to it before. -/
theorem gets_read_iff {use : Ident} {entry : Variable} {target : Nat}
    (bound : ScopeEvent.binding? done.reverse (.read use) = some target)
    (fits : Fits done entry target) :
    Gets (done ++ [ScopeEvent.read use]) declaration done.length warning ↔
      entry.usage = .declared ∧ declaration = target ∧
        warning = ⟨.uninitializedRead use.name, use.span⟩ := by
  constructor
  · rintro (⟨declared, ⟨isRead, refers, unread⟩, unwritten⟩ | ⟨-, closes, -⟩)
    · rw [List.getElem?_concat_length] at isRead
      cases isRead
      rw [refers_length_iff, bound] at refers
      cases refers
      rw [List.getElem?_append_left fits.known] at declared
      refine ⟨fits.declared_iff.mpr ⟨⟨_, declared⟩, ?_, ?_⟩, rfl, rfl⟩
      · intro place reads
        exact unread place reads.lt_length (readAt_concat_iff.mpr (.inl reads))
      · intro place writes
        exact unwritten place writes.lt_length (writtenAt_concat_iff.mpr (.inl writes))
    · cases (closedAt_length_iff.mp closes).1
  · rintro ⟨untouched, rfl, rfl⟩
    rcases fits.declared_iff.mp untouched with ⟨⟨name, declared⟩, unread, unwritten⟩
    refine .uninitialized (getElem?_concat_eq_some_iff.mpr (.inl declared))
      ⟨List.getElem?_concat_length, refers_length_iff.mpr bound, ?_⟩ ?_
    · intro place early reads
      exact unread place ((readAt_concat_iff_of_lt early).mp reads)
    · intro place early writes
      exact unwritten place ((writtenAt_concat_iff_of_lt early).mp writes)

/-- What is given where a scope closes: a warning about each variable of it that was not read. -/
theorem gets_leave_iff :
    Gets (done ++ [ScopeEvent.leave]) declaration done.length warning ↔
      ∃ name, done[declaration]? = some (.declare name) ∧
        declaration ∈ declaredHere 0 done.reverse ∧ (∀ place, ¬ done.ReadAt declaration place) ∧
          warning = ⟨.unusedVariable name.name, name.span⟩ := by
  have same_reads (place : Nat) : ReadAt (done ++ [ScopeEvent.leave]) declaration place ↔
      ReadAt done declaration place := by
    simp [readAt_concat_iff, ScopeEvent.isRead]
  constructor
  · rintro (⟨-, first, -⟩ | @⟨name, declared, closes, unread⟩)
    · have isRead := first.1
      rw [List.getElem?_concat_length] at isRead
      cases isRead
    · rcases getElem?_concat_eq_some_iff.mp declared with before | ⟨-, isDeclaration⟩
      · exact ⟨name, before, (closedAt_length_iff.mp closes).2,
          fun place => (same_reads place).not.mp (unread place), rfl⟩
      · cases isDeclaration
  · rintro ⟨name, declared, member, unread, rfl⟩
    exact .unused (getElem?_concat_eq_some_iff.mpr (.inl declared))
      (closedAt_length_iff.mpr ⟨rfl, member⟩) fun place => (same_reads place).not.mpr (unread place)

end Gets

/-! ## Unused variables of a scope -/

/-- The entries of a scope, sorted by name. -/
theorem pairwise_mergeSort_name {α : Type} {scope : Scope α} (nodup : (scope.map Prod.fst).Nodup) :
    (scope.mergeSort fun first second => decide (first.1 ≤ second.1)).Pairwise
      fun first second => first.1 < second.1 := by
  have sorted : (scope.mergeSort fun first second => decide (first.1 ≤ second.1)).Pairwise
      fun first second => first.1 ≤ second.1 := by
    refine List.Pairwise.imp of_decide_eq_true (List.pairwise_mergeSort ?_ ?_ scope)
    · intro first second third order next
      exact decide_eq_true (String.le_trans (of_decide_eq_true order) (of_decide_eq_true next))
    · intro first second
      rw [Bool.or_eq_true, decide_eq_true_eq, decide_eq_true_eq]
      exact String.le_total _ _
  have different : (scope.mergeSort fun first second => decide (first.1 ≤ second.1)).Pairwise
      fun first second => first.1 ≠ second.1 := by
    have names := (List.mergeSort_perm scope fun first second => decide (first.1 ≤ second.1)).map
      Prod.fst
    exact List.pairwise_map.mp (names.nodup_iff.mpr nodup)
  refine List.Pairwise.imp ?_ (sorted.and different)
  rintro first second ⟨order, unequal⟩
  exact lt_of_le_of_ne order unequal

/-- The order in which a scope holds its variables does not matter for its warnings. -/
theorem unusedWarnings_of_perm {scope other : Scope Variable} (permuted : scope.Perm other)
    (nodup : (scope.map Prod.fst).Nodup) :
    State.unusedWarnings scope = State.unusedWarnings other := by
  have filtered := permuted.filter fun entry => entry.2.usage != .used
  have nodupFiltered := nodup.sublist (List.filter_sublist.map Prod.fst :
    ((scope.filter fun entry => entry.2.usage != .used).map Prod.fst).Sublist _)
  have nodupOther := (filtered.map Prod.fst).nodup_iff.mp nodupFiltered
  unfold State.unusedWarnings
  refine congrArg (List.map _) (List.Perm.eq_of_pairwise ?_ (pairwise_mergeSort_name nodupFiltered)
    (pairwise_mergeSort_name nodupOther) ?_)
  · intro first second _ _ order reverse
    exact absurd reverse (String.lt_asymm order)
  · exact (List.mergeSort_perm _ _).trans (filtered.trans (List.mergeSort_perm _ _).symm)

/-- Related scopes as one scope of pairs. -/
theorem Scope.Related.exists_joined {α β : Type} {R : α → β → Prop} {left : Scope α}
    {right : Scope β} (related : Related R left right) :
    ∃ joined : Scope (α × β), left = joined.map (fun entry => (entry.1, entry.2.1)) ∧
      right = joined.map (fun entry => (entry.1, entry.2.2)) ∧
        ∀ entry ∈ joined, R entry.2.1 entry.2.2 := by
  induction related with
  | nil => exact ⟨[], rfl, rfl, nofun⟩
  | @cons first second _ _ same _ ih =>
    rcases first with ⟨name, value⟩
    rcases second with ⟨_, other⟩
    rcases same with ⟨rfl, valuesRelated⟩
    rcases ih with ⟨joined, rfl, rfl, each⟩
    exact ⟨(name, value, other) :: joined, rfl, rfl, List.forall_mem_cons.mpr ⟨valuesRelated, each⟩⟩

/-- The warning about a read, with the position of the declaration that it refers to. -/
def readPiece (use : Ident) (entry : Variable) (target : Nat) : List (Nat × Warning) :=
  if entry.usage = .declared then [(target, ⟨.uninitializedRead use.name, use.span⟩)] else []

/-- The warnings about a scope that closes, each with the position of its declaration. -/
def unusedPiece (joined : Scope (Variable × Nat)) : List (Nat × Warning) :=
  let unused := joined.filter fun entry => entry.2.1.usage != .used
  let sorted := unused.mergeSort fun first second => decide (first.1 ≤ second.1)
  sorted.map fun entry => (entry.2.2, ⟨.unusedVariable entry.1, entry.2.1.span⟩)

section Piece

variable {done : Walk} {declaration target : Nat} {warning : Warning} {use : Ident}
  {entry : Variable} {joined : Scope (Variable × Nat)}

theorem byName_readPiece : ByName (readPiece use entry target) := by
  unfold readPiece
  split
  · exact List.pairwise_singleton _ _
  · exact List.Pairwise.nil

/-- What is given at a read is the warning about it. -/
theorem mem_readPiece_iff_gets
    (bound : ScopeEvent.binding? done.reverse (.read use) = some target)
    (fits : Fits done entry target) :
    (declaration, warning) ∈ readPiece use entry target ↔
      Gets (done ++ [ScopeEvent.read use]) declaration done.length warning := by
  rw [gets_read_iff bound fits, readPiece]
  split <;> simp_all

theorem map_snd_unusedPiece :
    (unusedPiece joined).map Prod.snd =
      State.unusedWarnings (joined.map fun entry => (entry.1, entry.2.1)) := by
  have map_sorted (entries : Scope (Variable × Nat)) :
      (entries.mergeSort fun first second => decide (first.1 ≤ second.1)).map
          (fun entry => (entry.1, entry.2.1)) =
        (entries.map fun entry => (entry.1, entry.2.1)).mergeSort
          fun first second => decide (first.1 ≤ second.1) :=
    List.map_mergeSort fun _ _ _ _ => rfl
  simp only [unusedPiece, State.unusedWarnings]
  rw [List.filter_map, ← map_sorted, List.map_map, List.map_map]
  rfl

theorem byName_unusedPiece (nodup : (joined.map Prod.fst).Nodup) : ByName (unusedPiece joined) := by
  have nodupFiltered := nodup.sublist (List.filter_sublist.map Prod.fst :
    ((joined.filter fun entry => entry.2.1.usage != .used).map Prod.fst).Sublist _)
  exact List.pairwise_map.mpr (pairwise_mergeSort_name nodupFiltered)

theorem mem_unusedPiece :
    (declaration, warning) ∈ unusedPiece joined ↔
      ∃ entry ∈ joined, entry.2.1.usage ≠ .used ∧ entry.2.2 = declaration ∧
        warning = ⟨.unusedVariable entry.1, entry.2.1.span⟩ := by
  simp only [unusedPiece, List.mem_map, List.mem_mergeSort, List.mem_filter, bne_iff_ne,
    Prod.mk.injEq, and_assoc]
  refine exists_congr fun entry => and_congr_right fun _ => and_congr_right fun _ =>
    and_congr_right fun _ => eq_comm

/-- What is given where a scope closes are the warnings about its variables. -/
theorem mem_unusedPiece_iff_gets
    (here_eq : declaredHere 0 done.reverse = joined.map fun entry => entry.2.2)
    (locals : ∀ entry ∈ joined, ∃ name, done[entry.2.2]? = some (.declare name) ∧
      name.name = entry.1)
    (fits : ∀ entry ∈ joined, Fits done entry.2.1 entry.2.2) :
    (declaration, warning) ∈ unusedPiece joined ↔
      Gets (done ++ [ScopeEvent.leave]) declaration done.length warning := by
  rw [mem_unusedPiece, gets_leave_iff, here_eq]
  constructor
  · rintro ⟨entry, member, unused, rfl, rfl⟩
    rcases locals entry member with ⟨name, declared, name_eq⟩
    refine ⟨name, declared, List.mem_map_of_mem member, ?_, ?_⟩
    · intro place reads
      exact unused ((fits entry member).used_iff.mpr ⟨place, reads⟩)
    · rw [(fits entry member).span_eq name declared, name_eq]
  · rintro ⟨name, declared, here, unread, rfl⟩
    rcases List.mem_map.mp here with ⟨entry, member, rfl⟩
    rcases locals entry member with ⟨other, declaredOther, name_eq⟩
    cases declared.symm.trans declaredOther
    refine ⟨entry, member, ?_, rfl, ?_⟩
    · intro used
      rcases (fits entry member).used_iff.mp used with ⟨place, reads⟩
      exact unread place reads
    · rw [(fits entry member).span_eq name declared, name_eq]

end Piece

/-! ## Runs -/

/-- A check that is in step with a walk: its scopes are followed by a stack, its variables have come
as far as the walk says, and its warnings report the walk. -/
structure Tracked (done : Walk) (state : State) (stack : Scopes Nat) : Prop where
  stacked : Stacked done stack
  related : Scopes.Related (Fits done) state.scopes stack
  reports : done.Reports state.warnings

namespace Tracked

variable {done : Walk} {state after : State} {stack : Scopes Nat} {name : Ident}

section

variable (tracked : Tracked done state stack)
include tracked

/-- Scopes stay related where an event refers to no declaration. -/
theorem related_concat {event : ScopeEvent} (unbound : event.binding? done.reverse = none) :
    Scopes.Related (Fits (done ++ [event])) state.scopes stack := by
  refine tracked.related.imp fun _ _ fits => fits.concat ?_
  rw [unbound]
  nofun

theorem depth_eq : state.scopes.depth = stack.depth :=
  tracked.related.all.length_eq

/-- The declaration that a name in scope stands for. -/
theorem exists_target {entry : Variable} (found : state.scopes.lookup? name.name = some entry) :
    ∃ target, stack.lookup? name.name = some target ∧
      declarationOf? name.name 0 done.reverse = some target ∧ Fits done entry target := by
  have same := tracked.related.lookup? name.name
  rw [found] at same
  cases bound : stack.lookup? name.name with
  | none =>
    rw [bound] at same
    cases same
  | some target =>
    rw [bound] at same
    cases same with
    | some fits =>
      rw [tracked.stacked.resolves.lookup?, Option.map_id_fun, id] at bound
      exact ⟨target, rfl, bound, fits⟩

end

theorem enter (tracked : Tracked done state stack) :
    Tracked (done ++ [ScopeEvent.enter]) state.enter stack.enter where
  stacked := tracked.stacked.enter
  related := (tracked.related_concat rfl).enter
  reports := tracked.reports.quiet rfl nofun

theorem declare (tracked : Tracked done state stack) (inside : 1 < state.scopes.depth)
    (declares : state.declare name = .ok after) :
    Tracked (done ++ [ScopeEvent.declare name]) after (stack.declare name.name done.length) := by
  unfold State.declare at declares
  split at declares
  · cases declares
  · rename_i fresh
    split at declares
    · cases declares
    · cases declares
      refine ⟨tracked.stacked.declare (tracked.depth_eq ▸ inside) ?_,
        (tracked.related_concat rfl).declare name.name (.declare name),
        tracked.reports.quiet rfl nofun⟩
      rwa [← tracked.related.declaresHere, ← Bool.not_eq_true]

theorem parameter (tracked : Tracked done state stack) (outermost : stack.enclosing = [])
    (name : Ident) (span : Span) :
    Tracked (done ++ [ScopeEvent.parameter name])
      ⟨state.scopes.declare name.name ⟨.initialized, span⟩, state.warnings⟩
      (stack.declare name.name done.length) where
  stacked := tracked.stacked.parameter outermost name
  related := (tracked.related_concat rfl).declare name.name (.parameter name span)
  reports := tracked.reports.quiet rfl nofun

section

variable (tracked : Tracked done state stack)
include tracked

theorem read (reads : state.read name = .ok after) :
    Tracked (done ++ [ScopeEvent.read name]) after stack := by
  unfold State.read at reads
  split at reads
  · cases reads
  · rename_i entry found
    cases reads
    rcases tracked.exists_target found with ⟨target, lookup_eq, bound, fits⟩
    refine ⟨tracked.stacked.use (.inl rfl), ?_, ?_⟩
    · refine tracked.related.modify tracked.stacked.distinct lookup_eq ?_ fun _ fits =>
        fits.read bound
      intro _ other different fits
      refine fits.concat fun same => different ?_
      exact (Option.some.inj (bound.symm.trans same)).symm
    · have reported := tracked.reports.concat
        (fun _ _ => mem_readPiece_iff_gets bound fits) byName_readPiece
      rwa [readPiece, apply_ite (List.map Prod.snd)] at reported

theorem write : Tracked (done ++ [ScopeEvent.write name]) (state.assign name.name) stack := by
  refine ⟨tracked.stacked.use (.inr rfl), ?_, tracked.reports.quiet rfl nofun⟩
  unfold State.assign
  cases found : state.scopes.lookup? name.name with
  | none =>
    rw [Scopes.modify_of_lookup?_eq_none found]
    apply tracked.related_concat
    have unknown := tracked.related.isSome_lookup? name.name
    rw [found, Option.isSome_none, eq_comm, Option.isSome_eq_false_iff, Option.isNone_iff_eq_none,
      tracked.stacked.resolves.lookup?, Option.map_id_fun, id] at unknown
    exact unknown
  | some entry =>
    rcases tracked.exists_target found with ⟨target, lookup_eq, bound, -⟩
    refine tracked.related.modify tracked.stacked.distinct lookup_eq ?_ fun _ fits =>
      fits.write bound
    intro _ other different fits
    refine fits.concat fun same => different ?_
    exact (Option.some.inj (bound.symm.trans same)).symm

theorem reports_leave {outer : Scopes Nat} (left : stack.leave? = some outer) :
    Reports (done ++ [ScopeEvent.leave])
      (state.warnings ++ State.unusedWarnings state.scopes.innermost) := by
  rcases tracked.related.innermost.exists_joined with ⟨joined, state_eq, stack_eq, fits⟩
  have layered := tracked.stacked.layered
  have here_eq := tracked.stacked.collects 0
  rw [Scopes.all_of_leave? left, stack_eq] at layered here_eq
  rw [state_eq, ← map_snd_unusedPiece]
  cases layered with
  | locals each nodup _ =>
    rw [List.map_map] at nodup
    refine tracked.reports.concat (fun declaration warning => ?_) (byName_unusedPiece nodup)
    refine mem_unusedPiece_iff_gets ?_ ?_ fits
    · rw [here_eq, List.drop_zero, List.headD_cons, List.map_map]
      rfl
    · intro entry member
      exact each _ (List.mem_map_of_mem member)

theorem leave {outer : Scopes Variable} (left : state.scopes.leave? = some outer) :
    ∃ stackOuter, Tracked (done ++ [ScopeEvent.leave])
      ⟨outer, state.warnings ++ State.unusedWarnings state.scopes.innermost⟩ stackOuter := by
  have related : Option.Rel (Scopes.Related (Fits (done ++ [ScopeEvent.leave]))) state.scopes.leave?
      stack.leave? := (tracked.related_concat rfl).leave?
  rw [left] at related
  cases stackLeft : stack.leave? with
  | none =>
    rw [stackLeft] at related
    cases related
  | some stackOuter =>
    rw [stackLeft] at related
    cases related with
    | some outerRelated =>
      refine ⟨stackOuter, tracked.stacked.leave stackLeft, outerRelated, ?_⟩
      exact tracked.reports_leave stackLeft

/-- One event keeps a check in step. -/
theorem follows {event : ScopeEvent} (follows : Semantic.Follows state event after) :
    ∃ stackAfter, Tracked (done ++ [event]) after stackAfter := by
  cases event with
  | enter =>
    cases follows
    exact ⟨_, tracked.enter⟩
  | leave =>
    rcases follows with ⟨outer, left, rfl⟩
    exact tracked.leave left
  | parameter name => cases follows
  | declare name => exact ⟨_, tracked.declare follows.1 follows.2⟩
  | read name => exact ⟨_, tracked.read follows⟩
  | write name =>
    cases follows
    exact ⟨_, tracked.write⟩

/-- A run keeps a check in step. -/
theorem run {walk : Walk} (runs : Run state walk after) :
    ∃ stackAfter, Tracked (done ++ walk) after stackAfter := by
  induction runs generalizing done stack with
  | nil =>
    rw [List.append_nil]
    exact ⟨stack, tracked⟩
  | @cons _ _ _ event rest follows _ ih =>
    rcases tracked.follows follows with ⟨middleStack, middle⟩
    rw [← List.singleton_append, ← List.append_assoc]
    exact ih middle

end

/-- The check of a function starts in step with its parameters. -/
theorem initial (parameters : List Parameter) :
    ∃ stack, stack.enclosing = [] ∧
      Tracked (parameters.map fun parameter => .parameter parameter.name)
        (initialState parameters) stack := by
  induction parameters using List.reverseRecOn with
  | nil => exact ⟨.single [], rfl, .nil, ⟨.nil, .nil⟩, .nil⟩
  | append_singleton before last ih =>
    rcases ih with ⟨stack, outermost, tracked⟩
    have state_eq : initialState (before ++ [last]) =
        ⟨(initialState before).scopes.declare last.name.name ⟨.initialized, last.span⟩, []⟩ := by
      simp [initialState, Scopes.declare, Scopes.single]
    rw [state_eq, List.map_append]
    refine ⟨_, ?_, tracked.parameter outermost last.name last.span⟩
    exact outermost

end Tracked

/-- A check of a function that succeeds is in step with the whole walk through it. -/
theorem tracked_checkFunction {isVoid : String → Bool} {function : FunctionDef}
    {report : List Warning} (checked : checkFunction isVoid function = .ok report) :
    ∃ state stack, Tracked function.walk state stack ∧ stack.depth = 1 ∧
      state.warnings = report := by
  rcases checkFunction_eq_ok_iff.mp checked with ⟨-, last, bodyChecked, rfl⟩
  have walks := (walks_checkStmts _ (inside_enter _) bodyChecked).scope
  rcases Tracked.initial function.parameters with ⟨_, -, initial⟩
  rcases initial.run walks.run with ⟨stack, tracked⟩
  exact ⟨last.leave, stack, tracked, tracked.depth_eq.symm.trans walks.depth_eq, rfl⟩

/-- Where only the scope of the parameters is open, the scopes of all variables are closed. -/
theorem Stacked.exists_closedAt {done : Walk} {stack : Scopes Nat} (stacked : Stacked done stack)
    (outermost : stack.depth = 1) {declaration : Nat} {name : Ident}
    (declared : done[declaration]? = some (.declare name)) :
    ∃ place, done.ClosedAt declaration place := by
  rcases stacked.settled declaration name declared with opened | closed
  · exfalso
    have layered := stacked.layered
    rcases List.length_eq_one_iff.mp outermost with ⟨scope, all_eq⟩
    rw [all_eq] at layered opened
    rw [List.flatten_singleton] at opened
    rcases List.mem_map.mp opened with ⟨entry, member, rfl⟩
    cases layered with
    | parameters each =>
      rcases each entry member with ⟨other, found⟩
      cases declared.symm.trans found
    | locals _ _ above => cases above
  · exact closed

/-! ## Programs -/

/-- The warnings of a program that passes the checks are the reports of its functions in order: each
variable gets the warnings that its reads and writes ask for, where the walk through its function
has them.  Each report is the only one, the scope of each variable closes at one place, and the
order in which a scope holds its variables does not matter. -/
theorem warnings_by_use {program : Program} {warnings : List Warning}
    (checked : program.check = .ok warnings) :
    (∃ reports, List.Forall₂ (fun function report =>
          (function.walk.Reports report ∧ ∀ other, function.walk.Reports other → other = report) ∧
          ∀ declaration name, function.walk[declaration]? = some (.declare name) →
            ∃! place, function.walk.ClosedAt declaration place) program.functions reports ∧
        warnings = reports.flatten) ∧
      ∀ scope other : Scope Variable, scope.Perm other → (scope.map Prod.fst).Nodup →
        State.unusedWarnings scope = State.unusedWarnings other := by
  rcases Program.check_eq_ok_iff.mp checked with ⟨-, -, functionsChecked⟩
  rcases checkFunctions_eq_ok_iff.mp functionsChecked with ⟨reports, each, rfl⟩
  refine ⟨⟨reports, each.imp ?_, rfl⟩, fun _ _ => unusedWarnings_of_perm⟩
  intro function report functionChecked
  rcases tracked_checkFunction functionChecked with ⟨state, stack, tracked, outermost, rfl⟩
  refine ⟨⟨tracked.reports, fun other reported => reported.unique tracked.reports⟩, ?_⟩
  intro declaration name declared
  rcases tracked.stacked.exists_closedAt outermost declared with ⟨place, closes⟩
  exact ⟨place, closes, fun other closesOther => closesOther.place_eq closes⟩

/-- A variable that is read before it has a value, one that is not used in a scope of its own, and
two that are not used in the scope around it. -/
theorem warnings_by_use_nested :
    ∃ program, parseProgram
        "int main(int p)\x7bint y,x,b;\x7bint z=x;\x7dy=2;return 0;\x7d".toList = .ok program ∧
      program.check = .ok [⟨.uninitializedRead "x", ⟨33, 34⟩⟩, ⟨.unusedVariable "z", ⟨31, 32⟩⟩,
        ⟨.unusedVariable "b", ⟨24, 25⟩⟩, ⟨.unusedVariable "y", ⟨20, 21⟩⟩] ∧
      ∃ reports, List.Forall₂ (fun function report => function.walk.Reports report)
          program.functions reports ∧
        reports.flatten = [⟨.uninitializedRead "x", ⟨33, 34⟩⟩, ⟨.unusedVariable "z", ⟨31, 32⟩⟩,
          ⟨.unusedVariable "b", ⟨24, 25⟩⟩, ⟨.unusedVariable "y", ⟨20, 21⟩⟩] := by
  have evaluated : (parseProgram
      "int main(int p)\x7bint y,x,b;\x7bint z=x;\x7dy=2;return 0;\x7d".toList).toOption.any
        (fun program => decide (program.check = .ok [⟨.uninitializedRead "x", ⟨33, 34⟩⟩,
          ⟨.unusedVariable "z", ⟨31, 32⟩⟩, ⟨.unusedVariable "b", ⟨24, 25⟩⟩,
            ⟨.unusedVariable "y", ⟨20, 21⟩⟩])) = true := by
    cbv
  rcases exists_ok_of_any evaluated with ⟨program, parsed, passes⟩
  have checked := of_decide_eq_true passes
  rcases (warnings_by_use checked).1 with ⟨reports, each, flatten_eq⟩
  exact ⟨program, parsed, checked, reports, each.imp fun _ _ reported => reported.1.1,
    flatten_eq.symm⟩

end SmallC
