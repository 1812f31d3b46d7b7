import SmallC.Proofs.Graph.Flow
import SmallC.Proofs.Lowering.Shape

/-!
# Certificates of growing graphs

A certificate grows with its graph.  Every new block gets a promise of what is written wherever it is
entered, a promise is kept by each jump and branch to the block, and what is known of older blocks
stays.  The temporaries are those of the final graph, so a slot keeps its role from the start.
-/

namespace SmallC.Graph

/-- A slot of a temporary. -/
def IsTemporary (graph : Graph) (slot : Slot) : Prop :=
  ∃ symbol number, graph.symbols.get? slot = some symbol ∧ symbol.name = temporaryName number

/-- A later graph that has all blocks and symbols of an earlier one. -/
structure Larger (graph next : Graph) : Prop where
  symbols_extended : graph.symbols.entries <+: next.symbols.entries
  size_le : graph.blocks.size ≤ next.blocks.size

/-- A graph from which another one is built, whose keys have not run out. -/
structure Within (final graph : Graph) : Prop extends Larger graph final where
  symbols_lt : final.symbols.size < 2 ^ 32
  final_le : final.blocks.size ≤ 2 ^ 32

/-- A certified graph in which the variables in scope are no temporaries of the final graph. -/
structure Tracked (final : Graph) (known : BlockId → Set Slot) (graph : Graph) : Prop where
  current : graph.HasBlock graph.current
  plain : ∀ entry ∈ graph.scopes.named.all.flatten, ¬final.IsTemporary entry.2
  certified : graph.Certified final.IsTemporary known

variable {final graph middle next : Graph} {known other : BlockId → Set Slot} {slot : Slot}
  {id : BlockId} {name : String} {offset : Int}

theorem Addition.larger {names : List String} (addition : Addition names graph next) :
    Larger graph next :=
  ⟨addition.symbols_extended, addition.size_le⟩

namespace Larger

theorem trans (larger : Larger graph middle) (further : Larger middle next) : Larger graph next :=
  ⟨larger.symbols_extended.trans further.symbols_extended, Nat.le_trans larger.size_le further.size_le⟩

theorem hasBlock (larger : Larger graph next) (isKnown : graph.HasBlock id) : next.HasBlock id :=
  Nat.lt_of_lt_of_le isKnown larger.size_le

theorem entered (change : BasicBlock → BasicBlock) (id : BlockId) (graph : Graph) :
    Larger graph ((graph.changed graph.current change).entered id) :=
  ⟨List.prefix_rfl, by simp⟩

end Larger

namespace Within

theorem earlier (within : Within final next) (larger : Larger graph next) : Within final graph :=
  ⟨larger.trans within.toLarger, within.symbols_lt, within.final_le⟩

theorem before {names : List String} (within : Within final next)
    (addition : Addition names graph next) : Within final graph :=
  within.earlier addition.larger

theorem of_extended {instruction : Instruction} (within : Within final (graph.extended instruction)) :
    Within final graph :=
  within.before (.extended instruction graph)

theorem of_inScopes {scopes : Scopes Slot} (within : Within final (graph.inScopes scopes)) :
    Within final graph :=
  within.earlier ⟨List.prefix_rfl, Nat.le_refl _⟩

theorem of_createdAll {tags : List String} (within : Within final (graph.createdAll tags)) :
    Within final graph :=
  within.before (.createdAll tags graph)

theorem of_entered {change : BasicBlock → BasicBlock}
    (within : Within final ((graph.changed graph.current change).entered id)) : Within final graph :=
  within.earlier (.entered change id graph)

/-- The final graph knows a symbol under the slot that it was given. -/
theorem get?_nextKey (within : Within final (graph.placed name offset)) :
    final.symbols.get? graph.symbols.nextKey = some ⟨name, .int, offset⟩ := by
  obtain ⟨rest, entries_eq⟩ := within.symbols_extended
  have room : graph.symbols.size < 2 ^ 32 := by
    have total := within.symbols_lt
    unfold Table.size at total ⊢
    rw [← entries_eq] at total
    simp only [placed_symbols, Table.push, List.length_append] at total
    omega
  rw [Table.get?, Table.nextKey, TableKey.index_ofIndex_of_lt room, ← entries_eq]
  simp [Table.push, Table.size]

/-- The slot of a variable is not that of a temporary. -/
theorem not_isTemporary_nextKey (within : Within final (graph.placed name offset))
    (isVariable : isTemporary name = false) :
    ¬final.IsTemporary graph.symbols.nextKey := by
  rintro ⟨symbol, number, found, name_eq⟩
  rw [within.get?_nextKey] at found
  obtain rfl := Option.some.inj found
  rw [show name = temporaryName number from name_eq, isTemporary_temporaryName] at isVariable
  cases isVariable

end Within

/-- The keys of a finished graph have not run out. -/
theorem Complete.size_le (complete : graph.Complete) : graph.blocks.size ≤ 2 ^ 32 := by
  by_contra tooMany
  have keys_nodup : graph.blocks.keys.Nodup := complete.order_perm.nodup_iff.mp complete.order_nodup
  have same : (TableKey.ofIndex 0 : BlockId) = TableKey.ofIndex (2 ^ 32) := rfl
  have zero_eq := List.inj_on_of_nodup_map keys_nodup (List.mem_range.mpr (by omega))
    (List.mem_range.mpr (by omega)) same
  cases zero_eq

/-! ## Promises -/

/-- A certificate that says one thing about some blocks of a graph. -/
def Promises (slots : Set Slot) (ids : List BlockId) (known : BlockId → Set Slot) (graph : Graph) :
    Prop :=
  ∀ id ∈ ids, graph.HasBlock id ∧ known id = slots

variable {slots : Set Slot} {ids : List BlockId}

/-- The blocks that are about to be created can be promised anything. -/
theorem promises_createdAll {tags : List String} (within : Within final (graph.createdAll tags))
    (slots : Set Slot) (known : BlockId → Set Slot) :
    Promises slots ((List.range tags.length).map graph.newKey) (graph.withNew slots known)
      (graph.createdAll tags) := by
  intro id member
  obtain ⟨number, isNew, rfl⟩ := List.mem_map.mp member
  rw [List.mem_range] at isNew
  have room := Nat.le_trans within.size_le within.final_le
  rw [size_createdAll] at room
  exact ⟨hasBlock_newKey graph isNew,
    withNew_of_not_hasBlock (not_hasBlock_newKey (Nat.le_refl _) (by omega)) slots⟩

section

variable (promises : graph.Promises slots ids known)
include promises

theorem Promises.entered (change : BasicBlock → BasicBlock) (id : BlockId) :
    ((graph.changed graph.current change).entered id).Promises slots ids known :=
  fun other member => ⟨hasBlock_changed.mpr (promises other member).1, (promises other member).2⟩

theorem Promises.subset {others : List BlockId} (subset : others ⊆ ids) :
    graph.Promises slots others known :=
  fun id member => promises id (subset member)

/-- What a block was promised is available when it is entered. -/
theorem Promises.subset_available (member : id ∈ ids) (tracked : Slot → Prop) :
    slots ⊆ (next.entered id).available tracked known :=
  (promises id member).2 ▸ subset_available_entered id

end

/-! ## Steps of lowering -/

namespace Tracked

variable (tracked : Tracked final known graph)

include tracked

/-- The value of a variable in scope is available. -/
theorem mem_available_of_lookup? {name : Ident} (word : name.WellFormed)
    (found : graph.scopes.lookup? name.name = some slot) :
    slot ∈ graph.available final.IsTemporary known := by
  rw [← Scopes.lookup?_named _ (isTemporary_of_isWord word)] at found
  intro _ _ isTemporary
  exact absurd isTemporary (tracked.plain _ (Scopes.mem_of_lookup? found))

theorem withTemporary : Tracked final known graph.withTemporary := by
  refine ⟨tracked.current, ?_, tracked.certified.beside rfl⟩
  rw [Lowering.named_withTemporary]
  exact tracked.plain

/-- A new symbol that is in scope under the name of a variable. -/
theorem placed (within : Within final (graph.placed name offset))
    (isVariable : isTemporary name = false) : Tracked final known (graph.placed name offset) := by
  refine ⟨tracked.current, ?_, tracked.certified.beside rfl⟩
  rw [placed_scopes, Scopes.named_declare _ isVariable]
  show ∀ entry ∈ (name, graph.symbols.nextKey) :: graph.scopes.named.all.flatten, _
  rw [List.forall_mem_cons]
  exact ⟨within.not_isTemporary_nextKey isVariable, tracked.plain⟩

theorem declared (within : Within final (graph.declared name))
    (isVariable : isTemporary name = false) : Tracked final known (graph.declared name) := by
  have placedWithin : Within final (graph.placed name graph.nextOffset) :=
    within.earlier ⟨List.prefix_rfl, Nat.le_refl _⟩
  obtain ⟨current, plain, certified⟩ := tracked.placed placedWithin isVariable
  exact ⟨current, plain, certified.beside rfl⟩

theorem withParameter {position : Nat} (within : Within final (graph.withParameter name position))
    (isVariable : isTemporary name = false) :
    Tracked final known (graph.withParameter name position) := by
  have placedWithin : Within final (graph.placed name (Frame.parameterOffset position)) :=
    within.earlier ⟨List.prefix_rfl, Nat.le_refl _⟩
  obtain ⟨current, plain, certified⟩ := tracked.placed placedWithin isVariable
  exact ⟨current, plain, certified.beside rfl⟩

theorem opened : Tracked final known (graph.inScopes graph.scopes.enter) :=
  ⟨tracked.current, tracked.plain, tracked.certified.beside rfl⟩

theorem closed {outer : Scopes Slot} (left : graph.scopes.leave? = some outer) :
    Tracked final known (graph.inScopes outer) := by
  refine ⟨tracked.current, fun entry member => tracked.plain entry ?_, tracked.certified.beside rfl⟩
  have leftNamed : graph.scopes.named.leave? = some outer.named := by
    rw [Scopes.leave?_named, left, Option.map_some]
  rw [Scopes.all_of_leave? leftNamed, List.flatten_cons]
  exact List.mem_append_right _ member

theorem extended {instruction : Instruction}
    (covers : graph.Covers known (graph.available final.IsTemporary known)
      (.instruction instruction)) : Tracked final known (graph.extended instruction) :=
  ⟨hasBlock_changed.mpr tracked.current, tracked.plain, tracked.certified.extended covers⟩

theorem jumped (promises : graph.Promises slots ids known)
    (available : slots ⊆ graph.available final.IsTemporary known) {target : BlockId}
    (isTarget : target ∈ ids) (isNext : id ∈ ids) : Tracked final known (graph.jumped target id) := by
  obtain ⟨targetKnown, target_eq⟩ := promises target isTarget
  have covers : graph.Covers known (graph.available final.IsTemporary known)
      (.exit (.jump target)) :=
    ⟨by simp [CodeItem.reads, Terminator.reads], by
      simpa [CodeItem.targets, Terminator.targets, target_eq] using ⟨targetKnown, available⟩⟩
  have linked : (graph.jumping target).Certified final.IsTemporary known :=
    tracked.certified.linked (fun _ => rfl) (fun _ => rfl) covers
  exact ⟨hasBlock_changed.mpr (promises id isNext).1, tracked.plain, linked.beside rfl⟩

theorem branched (promises : graph.Promises slots ids known)
    (available : slots ⊆ graph.available final.IsTemporary known) {test : Slot}
    (tested : test ∈ graph.available final.IsTemporary known) {onTrue onFalse : BlockId}
    (isTrue : onTrue ∈ ids) (isFalse : onFalse ∈ ids) (isNext : id ∈ ids) :
    Tracked final known (graph.branched test onTrue onFalse id) := by
  obtain ⟨onTrueKnown, onTrue_eq⟩ := promises onTrue isTrue
  obtain ⟨onFalseKnown, onFalse_eq⟩ := promises onFalse isFalse
  have covers : graph.Covers known (graph.available final.IsTemporary known)
      (.exit (.branch test onTrue onFalse)) :=
    ⟨by simpa [CodeItem.reads, Terminator.reads] using tested, by
      simpa [CodeItem.targets, Terminator.targets, onTrue_eq, onFalse_eq] using
        ⟨⟨onTrueKnown, available⟩, onFalseKnown, available⟩⟩
  have linked : (graph.branching test onTrue onFalse).Certified final.IsTemporary known :=
    tracked.certified.linked (fun _ => rfl) (fun _ => rfl) covers
  exact ⟨hasBlock_changed.mpr (promises id isNext).1, tracked.plain, linked.beside rfl⟩

/-- New blocks of which the certificate says something. -/
theorem createdAll (slots : Set Slot) (tags : List String) :
    Tracked final (graph.withNew slots known) (graph.createdAll tags) := by
  have stillKnown : (graph.createdAll tags).HasBlock (graph.createdAll tags).current := by
    rw [createdAll_current]
    exact (Addition.createdAll tags graph).hasBlock tracked.current
  refine ⟨stillKnown, ?_, Certified.createdAll ?_ tags⟩
  · rw [createdAll_scopes]
    exact tracked.plain
  · exact tracked.certified.congr fun id isKnown => withNew_of_hasBlock isKnown slots

end Tracked

/-- Certificates of a graph and of a later one that say the same about the blocks of the first. -/
structure Later (final graph : Graph) (known : BlockId → Set Slot) (next : Graph)
    (other : BlockId → Set Slot) : Prop where
  tracked : Tracked final other next
  size_le : graph.blocks.size ≤ next.blocks.size
  agrees : ∀ id, graph.HasBlock id → other id = known id

namespace Later

variable {between : BlockId → Set Slot}

theorem refl (tracked : Tracked final known graph) : Later final graph known graph known :=
  ⟨tracked, Nat.le_refl _, fun _ _ => rfl⟩

theorem hasBlock (later : Later final graph known next other) (isKnown : graph.HasBlock id) :
    next.HasBlock id :=
  Nat.lt_of_lt_of_le isKnown later.size_le

theorem promises (later : Later final graph known next other) {slots : Set Slot} {ids : List BlockId}
    (promises : graph.Promises slots ids known) : next.Promises slots ids other := by
  intro id member
  obtain ⟨isKnown, known_eq⟩ := promises id member
  exact ⟨later.hasBlock isKnown, (later.agrees id isKnown).trans known_eq⟩

theorem trans (later : Later final graph known middle between)
    (further : Later final middle between next other) : Later final graph known next other :=
  ⟨further.tracked, Nat.le_trans later.size_le further.size_le, fun id isKnown =>
    (further.agrees id (later.hasBlock isKnown)).trans (later.agrees id isKnown)⟩

section

variable (later : Later final graph known middle other)
include later

/-- Steps that create no block. -/
theorem step (tracked : Tracked final other next) (size_eq : next.blocks.size = middle.blocks.size) :
    Later final graph known next other :=
  ⟨tracked, size_eq ▸ later.size_le, later.agrees⟩

theorem jumped {ids : List BlockId} (promises : middle.Promises ∅ ids other) {target : BlockId}
    (isTarget : target ∈ ids) (isNext : id ∈ ids) :
    Later final graph known (middle.jumped target id) other :=
  later.step (later.tracked.jumped promises (Set.empty_subset _) isTarget isNext)
    (size_changed _ _ _)

theorem branched {ids : List BlockId} (promises : middle.Promises ∅ ids other) {test : Slot}
    (tested : test ∈ middle.available final.IsTemporary other) {onTrue onFalse : BlockId}
    (isTrue : onTrue ∈ ids) (isFalse : onFalse ∈ ids) (isNext : id ∈ ids) :
    Later final graph known (middle.branched test onTrue onFalse id) other :=
  later.step (later.tracked.branched promises (Set.empty_subset _) tested isTrue isFalse isNext)
    (size_changed _ _ _)

theorem createdAll (slots : Set Slot) (tags : List String) :
    Later final graph known (middle.createdAll tags) (middle.withNew slots other) := by
  refine later.trans ⟨later.tracked.createdAll slots tags, by simp, fun id isKnown => ?_⟩
  exact withNew_of_hasBlock isKnown slots

end

end Later

end SmallC.Graph
