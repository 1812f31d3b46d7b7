import SmallC.Proofs.Lowering.Shape

/-!
# Names in graphs

The label of a block joins the name of its function, its number and a tag.  Tags have no digits, so
name and number can be read back from the end of the label, whatever the name of the function looks
like.  Calls have the targets of words, and symbols are named by words or like temporaries.
-/

namespace SmallC

/-! ## Reading a label -/

/-- Two texts that start with a run of one class come apart in the same way. -/
theorem append_inj_of_run {α : Type} {belongs : α → Bool} {first second rest others : List α}
    (firstRun : ∀ a ∈ first, belongs a = true) (secondRun : ∀ a ∈ second, belongs a = true)
    (restStops : ∀ a ∈ rest.head?, belongs a = false)
    (othersStop : ∀ a ∈ others.head?, belongs a = false)
    (same : first ++ rest = second ++ others) : first = second ∧ rest = others := by
  have run_eq (run tail : List α) (all : ∀ a ∈ run, belongs a = true)
      (stops : ∀ a ∈ tail.head?, belongs a = false) : (run ++ tail).takeWhile belongs = run := by
    rw [List.takeWhile_append_of_pos all]
    cases tail with
    | nil => exact List.append_nil run
    | cons a tail => simp [stops a rfl]
  have first_eq : first = second := by
    rw [← run_eq first rest firstRun restStops, same, run_eq second others secondRun othersStop]
  subst first_eq
  exact ⟨rfl, List.append_cancel_left same⟩

theorem isDigit_of_isWordStart {c : Char} (start : Piece.isWordStart c = true) :
    c.isDigit = false := by
  simp only [Piece.isWordStart, Char.isAlpha, Char.isUpper, Char.isLower, Bool.or_eq_true,
    Bool.and_eq_true, decide_eq_true_eq] at start
  rcases start with (upper | lower) | rfl
  · simp only [Char.isDigit, UInt32.le_iff_toNat_le, ge_iff_le] at upper ⊢
    simp at upper ⊢
    omega
  · simp only [Char.isDigit, UInt32.le_iff_toNat_le, ge_iff_le] at lower ⊢
    simp at lower ⊢
    omega
  · rfl

theorem isDigit_of_mem_toDigits {number : Nat} {c : Char}
    (member : c ∈ (Nat.toDigits 10 number).reverse) : c.isDigit = true :=
  Nat.isDigit_of_mem_toDigits (by decide) (by decide) (List.mem_reverse.mp member)

/-- A label from its end: the tag, the number and the name. -/
theorem reverse_blockLabel (function : String) (number : Nat) (tag : String) :
    (Graph.blockLabel function number tag).toList.reverse =
      (tag.toList.reverse ++ ['_']) ++ ((Nat.toDigits 10 number).reverse ++
        '_' :: (function.toList.reverse ++ ['L', '.'])) := by
  simp [Graph.blockLabel]

variable {tag : String} {change : BasicBlock → BasicBlock}

/-- A label with a plain tag determines the function and the number. -/
theorem blockLabel_inj {function other : String} {number otherNumber : Nat} {otherTag : String}
    (plain : plainTag tag = true) (otherPlain : plainTag otherTag = true)
    (same : Graph.blockLabel function number tag = Graph.blockLabel other otherNumber otherTag) :
    function = other ∧ number = otherNumber := by
  have tagRun {tag : String} (plain : plainTag tag = true) :
      ∀ c ∈ tag.toList.reverse ++ ['_'], (!c.isDigit) = true := by
    intro c member
    rcases List.mem_append.mp member with inTag | isMark
    · rw [isDigit_of_isWordStart (List.all_eq_true.mp plain c (List.mem_reverse.mp inTag))]
      rfl
    · rw [List.mem_singleton.mp isMark]
      rfl
  have digitsStop (number : Nat) (tail : List Char) :
      ∀ c ∈ ((Nat.toDigits 10 number).reverse ++ tail).head?, (!c.isDigit) = false := by
    intro c isHead
    rw [List.head?_append_of_ne_nil _ (by simp)] at isHead
    rw [isDigit_of_mem_toDigits (List.mem_of_mem_head? isHead)]
    rfl
  have reversed := congrArg (fun label : String => label.toList.reverse) same
  simp only [reverse_blockLabel] at reversed
  obtain ⟨-, afterTag⟩ := append_inj_of_run (tagRun plain) (tagRun otherPlain) (digitsStop _ _)
    (digitsStop _ _) reversed
  obtain ⟨digits_eq, names_eq⟩ := append_inj_of_run (fun _ => isDigit_of_mem_toDigits)
    (fun _ => isDigit_of_mem_toDigits) (by simp) (by simp) afterTag
  constructor
  · simpa [String.toList_inj] using names_eq
  · rw [← Nat.ofDigitChars_ten_toDigits (n := number), List.reverse_injective digits_eq,
      Nat.ofDigitChars_ten_toDigits]

/-! ## Labels of blocks -/

namespace Graph

variable {defined : String → Bool} {graph next : Graph} {id : BlockId} {block : BasicBlock}

/-- Blocks are labelled with the name of the function, their number and a tag. -/
def Labelled (graph : Graph) : Prop :=
  ∀ id block, graph.blocks.get? id = some block →
    ∃ tag, plainTag tag = true ∧ block.label = blockLabel graph.name (TableKey.index id) tag

/-- Every call has the target of a word. -/
def CallsWords (defined : String → Bool) (graph : Graph) : Prop :=
  ∀ id block, graph.blocks.get? id = some block →
    ∀ instruction ∈ block.instructions, instruction.CallsWord defined

/-- A block after a block was created: it was there before, or it is the new one. -/
theorem get?_created_cases (found : (graph.created tag).blocks.get? id = some block) :
    graph.blocks.get? id = some block ∨ TableKey.index id = graph.blocks.size ∧
      block = .new (blockLabel graph.name graph.blocks.size tag) := by
  simp only [created_blocks, Table.get?, Table.push, List.getElem?_append] at found
  split at found
  · exact .inl found
  · simp only [List.getElem?_singleton, Option.ite_none_right_eq_some, Option.some.injEq] at found
    obtain ⟨atEnd, block_eq⟩ := found
    exact .inr ⟨by unfold Table.size; omega, block_eq.symm⟩

/-- A block of a changed graph was there before, in whatever form. -/
theorem exists_get?_of_changed {changedId : BlockId}
    (found : (graph.changed changedId change).blocks.get? id = some block) :
    ∃ old, graph.blocks.get? id = some old ∧ (block = old ∨ block = change old) := by
  by_cases same : id = changedId
  · rw [same, get?_changed_self, Option.map_eq_some_iff] at found
    obtain ⟨old, foundOld, block_eq⟩ := found
    exact ⟨old, same ▸ foundOld, .inr block_eq.symm⟩
  · rw [get?_changed_of_ne same] at found
    exact ⟨block, found, .inl rfl⟩

/-- A graph with names as lowering gives them. -/
structure Named (defined : String → Bool) (graph : Graph) : Prop where
  word : isWord graph.name = true
  labels : graph.Labelled
  calls : graph.CallsWords defined
  symbols : ∀ symbol ∈ graph.symbols.entries, symbol.Named

/-- Changing a block keeps the names if the block keeps its label and calls words. -/
theorem Named.changed (named : graph.Named defined) (keeps : ∀ old, (change old).label = old.label)
    (adds : ∀ old, ∀ instruction ∈ (change old).instructions,
      instruction ∈ old.instructions ∨ instruction.CallsWord defined) (changedId : BlockId) :
    (graph.changed changedId change).Named defined := by
  refine ⟨named.word, ?labels, ?calls, named.symbols⟩
  case labels =>
    intro id block found
    obtain ⟨old, foundOld, rfl | rfl⟩ := exists_get?_of_changed found
    · exact named.labels id block foundOld
    · rw [keeps]
      exact named.labels id old foundOld
  case calls =>
    intro id block found instruction member
    obtain ⟨old, foundOld, rfl | rfl⟩ := exists_get?_of_changed found
    · exact named.calls id block foundOld instruction member
    · rcases adds old instruction member with earlier | callsWord
      · exact named.calls id old foundOld instruction earlier
      · exact callsWord

theorem Named.created (named : graph.Named defined) (plain : plainTag tag = true) :
    (graph.created tag).Named defined := by
  refine ⟨named.word, ?labels, ?calls, named.symbols⟩
  case labels =>
    intro id block found
    rcases get?_created_cases found with earlier | ⟨index_eq, rfl⟩
    · exact named.labels id block earlier
    · exact ⟨tag, plain, by rw [index_eq]; rfl⟩
  case calls =>
    intro id block found instruction member
    rcases get?_created_cases found with earlier | ⟨-, rfl⟩
    · exact named.calls id block earlier instruction member
    · cases member

theorem Named.entered (named : graph.Named defined) (id : BlockId) :
    (graph.entered id).Named defined :=
  ⟨named.word, named.labels, named.calls, named.symbols⟩

theorem Move.named (move : Move defined graph next) (named : graph.Named defined) :
    next.Named defined := by
  cases move with
  | created plain => exact named.created plain
  | extended callsWord =>
    refine named.changed ?_ ?_ graph.current
    · exact fun _ => rfl
    · intro old instruction member
      rcases List.mem_append.mp member with earlier | added
      · exact .inl earlier
      · exact .inr (List.mem_singleton.mp added ▸ callsWord)
  | jumped target can | branched test onTrue onFalse can =>
    refine (named.changed ?_ ?_ graph.current).entered _
    · exact fun _ => rfl
    · exact fun _ _ member => .inl member
  | beside name_eq blocks_eq _ _ names =>
    refine ⟨name_eq ▸ named.word, ?_, ?_, fun symbol present => ?_⟩
    · unfold Labelled
      rw [name_eq, blocks_eq]
      exact named.labels
    · unfold CallsWords
      rw [blocks_eq]
      exact named.calls
    · exact (names symbol present).elim (named.symbols symbol) id

theorem Moves.named (moves : Moves defined graph next) (named : graph.Named defined) :
    next.Named defined := by
  induction moves with
  | refl => exact named
  | tail _ move ih => exact move.named ih

theorem named_new {name : String} (word : isWord name = true) : (Graph.new name).Named defined := by
  have get?_new {id : BlockId} {block : BasicBlock}
      (found : (Graph.new name).blocks.get? id = some block) :
      TableKey.index id = 0 ∧ block = .new (blockLabel name 0 "entry") := by
    simp only [Graph.new, Table.get?, List.getElem?_singleton, Option.ite_none_right_eq_some,
      Option.some.injEq] at found
    exact ⟨found.1, found.2.symm⟩
  refine ⟨word, ?labels, ?calls, fun _ present => by cases present⟩
  case labels =>
    intro id block found
    obtain ⟨index_eq, rfl⟩ := get?_new found
    exact ⟨"entry", by decide, by rw [index_eq]; rfl⟩
  case calls =>
    intro id block found instruction member
    obtain ⟨-, rfl⟩ := get?_new found
    cases member

/-- Blocks of two graphs that are labelled by name and number have different labels, unless they
are the same block of graphs of one name. -/
theorem labels_inj {other : Graph} {otherId : BlockId} {otherBlock : BasicBlock}
    (labelled : graph.Labelled) (otherLabelled : other.Labelled)
    (found : graph.blocks.get? id = some block)
    (otherFound : other.blocks.get? otherId = some otherBlock)
    (same : block.label = otherBlock.label) : graph.name = other.name ∧ id = otherId := by
  obtain ⟨tag, plain, label_eq⟩ := labelled id block found
  obtain ⟨otherTag, otherPlain, otherLabel_eq⟩ := otherLabelled otherId otherBlock otherFound
  rw [label_eq, otherLabel_eq] at same
  obtain ⟨name_eq, index_eq⟩ := blockLabel_inj plain otherPlain same
  refine ⟨name_eq, ?_⟩
  rw [← TableKey.ofIndex_index id, index_eq, TableKey.ofIndex_index]

end Graph

namespace Lowering

theorem named_lowerFunction {defined : String → Bool} {function : FunctionDef} {graph : Graph}
    (tree : function.WellFormed) (lowered : lowerFunction defined function = .ok graph) :
    graph.Named defined := by
  obtain ⟨taken, functionLowered⟩ := functionLowered_of_lowerFunction tree lowered
  exact functionLowered.moves.named (Graph.named_new tree.name)

end Lowering

end SmallC
