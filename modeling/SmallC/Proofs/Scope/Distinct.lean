import SmallC.Proofs.Scope.Relation

/-!
# Stacks of scopes with distinct values

Where different names never stand for the same value, changing what one value is related to concerns
one name only.
-/

namespace SmallC

variable {α β : Type}

/-! ## Names and values -/

/-- No value stands under two declarations. -/
def Scopes.Distinct (scopes : Scopes β) : Prop :=
  (scopes.all.flatten.map Prod.snd).Nodup

namespace Scopes

variable {scopes : Scopes β} {name other : String} {value : β}

/-- Where values are distinct, only one name can stand for a value. -/
theorem Distinct.name_eq (distinct : scopes.Distinct) (found : scopes.lookup? name = some value)
    (foundOther : scopes.lookup? other = some value) : name = other := by
  have entries_eq := List.inj_on_of_nodup_map distinct (mem_of_lookup? found)
    (mem_of_lookup? foundOther) rfl
  exact congrArg Prod.fst entries_eq

/-- What a stack declares beside temporaries is part of what it declares. -/
theorem flatten_all_named_sublist (scopes : Scopes β) :
    scopes.named.all.flatten.Sublist scopes.all.flatten := by
  rw [all_named]
  generalize scopes.all = levels
  induction levels with
  | nil => exact List.Sublist.slnil
  | cons first others ih =>
    rw [List.map_cons, List.flatten_cons, List.flatten_cons]
    exact List.Sublist.append List.filter_sublist ih

theorem Distinct.named (distinct : scopes.Distinct) : scopes.named.Distinct :=
  List.Nodup.sublist ((flatten_all_named_sublist scopes).map Prod.snd) distinct

end Scopes

/-! ## Related stacks -/

section Related

variable {R S : α → β → Prop}

theorem Scope.Related.imp_of_mem {left : Scope α} {right : Scope β} (related : Related R left right)
    (weaker : ∀ entry ∈ right, ∀ value, R value entry.2 → S value entry.2) :
    Related S left right := by
  induction related with
  | nil => exact .nil
  | cons same _ ih =>
    rw [List.forall_mem_cons] at weaker
    exact .cons ⟨same.1, weaker.1 _ same.2⟩ (ih weaker.2)

theorem Scopes.related_iff_all {left : Scopes α} {right : Scopes β} :
    Related R left right ↔ List.Forall₂ (Scope.Related R) left.all right.all := by
  refine ⟨Related.all, ?_⟩
  rintro (_ | ⟨innermost, enclosing⟩)
  exact ⟨innermost, enclosing⟩

theorem forall₂_related_imp_of_mem {left : List (Scope α)} {right : List (Scope β)}
    (related : List.Forall₂ (Scope.Related R) left right)
    (weaker : ∀ entry ∈ right.flatten, ∀ value, R value entry.2 → S value entry.2) :
    List.Forall₂ (Scope.Related S) left right := by
  induction related with
  | nil => exact .nil
  | cons first _ ih =>
    rw [List.flatten_cons, List.forall_mem_append] at weaker
    exact .cons (first.imp_of_mem weaker.1) (ih weaker.2)

/-- Related stacks stay related as far as the values declared in them do. -/
theorem Scopes.Related.imp_of_mem {left : Scopes α} {right : Scopes β}
    (related : Related R left right)
    (weaker : ∀ entry ∈ right.all.flatten, ∀ value, R value entry.2 → S value entry.2) :
    Related S left right :=
  related_iff_all.mpr (forall₂_related_imp_of_mem related.all weaker)

variable {name : String} {target : β} {change : α → α}

/-- Changing what a name stands for, where the related value of that name changes too. -/
theorem Scope.Related.modify {left : Scope α} {right : Scope β} (related : Related R left right)
    (distinct : (right.map Prod.snd).Nodup) (found : right.lookup name = some target)
    (others : ∀ value other, other ≠ target → R value other → S value other)
    (changes : ∀ value, R value target → S (change value) target) :
    Related S (Scope.modify name change left) right := by
  induction related with
  | nil => cases found
  | @cons first second rest otherRest same restRelated ih =>
    obtain ⟨firstName, firstValue⟩ := first
    obtain ⟨secondName, secondValue⟩ := second
    obtain ⟨rfl, valuesRelated⟩ := same
    rw [List.map_cons, List.nodup_cons] at distinct
    rw [List.lookup_cons] at found
    rw [Scope.modify]
    split
    · rename_i isName
      simp only [isName, Option.some.injEq] at found
      subst found
      refine .cons ⟨rfl, changes _ valuesRelated⟩ (Scope.Related.imp_of_mem restRelated ?_)
      intro entry member value
      refine others value entry.2 fun same => distinct.1 ?_
      exact List.mem_map.mpr ⟨entry, member, same⟩
    · rename_i notName
      simp only [notName] at found
      have different : secondValue ≠ target := by
        rintro rfl
        exact distinct.1 (List.mem_map.mpr ⟨_, mem_of_lookup found, rfl⟩)
      exact .cons ⟨rfl, others _ _ different valuesRelated⟩ (ih distinct.2 found)

theorem Scopes.all_modify (scopes : Scopes α) :
    (scopes.modify name change).all = modifyIn name change scopes.all := by
  unfold Scopes.modify Scopes.all
  rw [Scopes.modifyIn]
  split <;> rfl

theorem forall₂_related_modifyIn {left : List (Scope α)} {right : List (Scope β)}
    (related : List.Forall₂ (Scope.Related R) left right)
    (distinct : (right.flatten.map Prod.snd).Nodup)
    (found : right.findSome? (·.lookup name) = some target)
    (others : ∀ value other, other ≠ target → R value other → S value other)
    (changes : ∀ value, R value target → S (change value) target) :
    List.Forall₂ (Scope.Related S) (Scopes.modifyIn name change left) right := by
  induction related with
  | nil => cases found
  | @cons first second rest otherRest scopesRelated restRelated ih =>
    rw [List.flatten_cons, List.map_append, List.nodup_append] at distinct
    obtain ⟨distinctHere, distinctRest, apart⟩ := distinct
    rw [Scopes.modifyIn, scopesRelated.declares, Scope.declares]
    cases foundHere : List.lookup name second with
    | some value =>
      rw [List.findSome?_cons, foundHere] at found
      cases found
      rw [Option.isSome_some, if_pos rfl]
      refine .cons (scopesRelated.modify distinctHere foundHere others changes)
        (forall₂_related_imp_of_mem restRelated ?_)
      intro entry member value
      refine others value entry.2 fun same => ?_
      exact apart _ (List.mem_map_of_mem (Scope.mem_of_lookup foundHere)) _
        (List.mem_map_of_mem member) same.symm
    | none =>
      rw [List.findSome?_cons, foundHere] at found
      rw [Option.isSome_none, if_neg Bool.false_ne_true]
      refine .cons (scopesRelated.imp_of_mem ?_) (ih distinctRest found)
      intro entry member value
      refine others value entry.2 fun same => ?_
      exact apart _ (List.mem_map_of_mem member) _
        (List.mem_map_of_mem (Scopes.mem_flatten_of_lookup found)) same

/-- Changing what a name stands for, where the related value of that name changes too. -/
theorem Scopes.Related.modify {left : Scopes α} {right : Scopes β} (related : Related R left right)
    (distinct : right.Distinct) (found : right.lookup? name = some target)
    (others : ∀ value other, other ≠ target → R value other → S value other)
    (changes : ∀ value, R value target → S (change value) target) :
    Related S (left.modify name change) right := by
  rw [related_iff_all, all_modify]
  exact forall₂_related_modifyIn related.all distinct found others changes

end Related

end SmallC
