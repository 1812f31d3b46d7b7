import SmallC.Proofs.Graph.Anonymous
import SmallC.Proofs.Lowering.Function
import SmallC.Proofs.Scope.Binding
import SmallC.Proofs.Tree.Outline

/-!
# Lowering does not depend on names

Two trees with the same outline whose names refer to the same declarations are lowered side by side.
The two graphs have the same code all the way, and a name of one tree stands for the same slot as
the name in its place in the other: which slot that is depends only on the position of the
declaration.
-/

namespace SmallC.Lowering

open SmallC.Graph

/-! ## Graphs side by side -/

/-- Graphs with the same code, each with the walk that is still ahead of it.  After what is behind
them, the names on the walks refer to declarations at the same positions, and the names in scope
stand for the slots of their declarations. -/
structure Abreast (walk otherWalk : Walk) (graph other : Graph) : Prop where
  code : SameCode graph other
  formed : walk.WellFormed
  otherFormed : otherWalk.WellFormed
  bound : ∃ past otherPast slotOf, past.length = otherPast.length ∧
    walk.bindingsAfter past = otherWalk.bindingsAfter otherPast ∧
      Resolves slotOf past graph.scopes.named ∧ Resolves slotOf otherPast other.scopes.named

namespace Abreast

variable {walk otherWalk : Walk} {graph other next otherNext : Graph} {event otherEvent : ScopeEvent}
  {name otherName : Ident}

section

variable (abreast : Abreast walk otherWalk graph other)
include abreast

/-- A step that changes no variable in scope. -/
theorem step (code : SameCode next otherNext) (named_eq : next.scopes.named = graph.scopes.named)
    (otherNamed_eq : otherNext.scopes.named = other.scopes.named) :
    Abreast walk otherWalk next otherNext := by
  rcases abreast with ⟨-, formed, otherFormed, bound⟩
  rw [← named_eq, ← otherNamed_eq] at bound
  exact ⟨code, formed, otherFormed, bound⟩

theorem extended (instruction : Instruction) :
    Abreast walk otherWalk (graph.extended instruction) (other.extended instruction) :=
  abreast.step (abreast.code.extended instruction) rfl rfl

theorem created (tag : String) : Abreast walk otherWalk (graph.created tag) (other.created tag) :=
  abreast.step (abreast.code.created tag) rfl rfl

theorem createdAll (tags : List String) :
    Abreast walk otherWalk (graph.createdAll tags) (other.createdAll tags) := by
  induction tags generalizing graph other with
  | nil => exact abreast
  | cons tag tags ih => exact ih (abreast.created tag)

theorem entered (change : BasicBlock → BasicBlock) (id : BlockId) :
    Abreast walk otherWalk ((graph.changed graph.current change).entered id)
      ((other.changed other.current change).entered id) :=
  abreast.step (abreast.code.entered change id) rfl rfl

theorem withTemporary : Abreast walk otherWalk graph.withTemporary other.withTemporary :=
  abreast.step abreast.code.withTemporary (named_withTemporary graph) (named_withTemporary other)

end

section

variable (abreast : Abreast (event :: walk) (otherEvent :: otherWalk) graph other)
include abreast

/-- The next events of both walks. -/
theorem advance (code : SameCode next otherNext)
    (resolves : ∀ past otherPast slotOf, past.length = otherPast.length →
      Resolves slotOf past graph.scopes.named → Resolves slotOf otherPast other.scopes.named →
        ∃ nextSlotOf, Resolves nextSlotOf (event :: past) next.scopes.named ∧
          Resolves nextSlotOf (otherEvent :: otherPast) otherNext.scopes.named) :
    Abreast walk otherWalk next otherNext := by
  rcases abreast with ⟨-, formed, otherFormed, past, otherPast, slotOf, length_eq, bindings_eq,
    before, otherBefore⟩
  rcases resolves past otherPast slotOf length_eq before otherBefore with ⟨nextSlotOf, after⟩
  exact ⟨code, (List.forall_mem_cons.mp formed).2, (List.forall_mem_cons.mp otherFormed).2,
    event :: past, otherEvent :: otherPast, nextSlotOf, congrArg Nat.succ length_eq,
    (List.cons.inj bindings_eq).2, after⟩

/-- The slot of a new declaration is that of its position from then on. -/
theorem introduce (introduces : event = .declare name ∨ event = .parameter name)
    (otherIntroduces : otherEvent = .declare otherName ∨ otherEvent = .parameter otherName)
    (code : SameCode next otherNext)
    (scopes_eq : next.scopes = graph.scopes.declare name.name graph.symbols.nextKey)
    (otherScopes_eq : otherNext.scopes =
      other.scopes.declare otherName.name other.symbols.nextKey) :
    Abreast walk otherWalk next otherNext := by
  have formed : name.WellFormed := by
    rcases introduces with rfl | rfl <;> exact abreast.formed _ List.mem_cons_self
  have otherFormed : otherName.WellFormed := by
    rcases otherIntroduces with rfl | rfl <;> exact abreast.otherFormed _ List.mem_cons_self
  refine abreast.advance code fun past otherPast slotOf length_eq resolves otherResolves => ?_
  let slotOfAll := Function.update slotOf past.length graph.symbols.nextKey
  have same (position : Nat) (early : position < past.length) :
      slotOf position = slotOfAll position :=
    (Function.update_of_ne early.ne _ _).symm
  have here : slotOfAll past.length = graph.symbols.nextKey := Function.update_self _ _ _
  refine ⟨slotOfAll, ?_, ?_⟩
  · rw [scopes_eq, Scopes.named_declare _ (isTemporary_of_isWord formed), ← here]
    exact (resolves.congr same).introduce name introduces
  · rw [otherScopes_eq, Scopes.named_declare _ (isTemporary_of_isWord otherFormed),
      ← abreast.code.nextKey_eq, ← here, length_eq]
    refine (otherResolves.congr ?_).introduce otherName otherIntroduces
    rwa [← length_eq]

end

theorem declare
    (abreast : Abreast (.declare name :: walk) (.declare otherName :: otherWalk) graph other) :
    Abreast walk otherWalk (graph.declared name.name) (other.declared otherName.name) :=
  abreast.introduce (.inl rfl) (.inl rfl) (abreast.code.declared _ _) rfl rfl

theorem parameter
    (abreast : Abreast (.parameter name :: walk) (.parameter otherName :: otherWalk) graph other)
    (position : Nat) :
    Abreast walk otherWalk (graph.withParameter name.name position)
      (other.withParameter otherName.name position) :=
  abreast.introduce (.inr rfl) (.inr rfl) (abreast.code.withParameter _ _ _) rfl rfl

theorem enter (abreast : Abreast (.enter :: walk) (.enter :: otherWalk) graph other) :
    Abreast walk otherWalk (graph.inScopes graph.scopes.enter)
      (other.inScopes other.scopes.enter) :=
  abreast.advance abreast.code fun _ _ slotOf _ resolves otherResolves =>
    ⟨slotOf, resolves.enter, otherResolves.enter⟩

theorem leave (abreast : Abreast (.leave :: walk) (.leave :: otherWalk) graph other)
    {outer otherOuter : Scopes Slot} (left : graph.scopes.leave? = some outer)
    (otherLeft : other.scopes.leave? = some otherOuter) :
    Abreast walk otherWalk (graph.inScopes outer) (other.inScopes otherOuter) := by
  refine abreast.advance abreast.code fun _ _ slotOf _ resolves otherResolves =>
    ⟨slotOf, resolves.leave ?_, otherResolves.leave ?_⟩
  · rw [Scopes.leave?_named, left]
    rfl
  · rw [Scopes.leave?_named, otherLeft]
    rfl

section

variable (abreast : Abreast (event :: walk) (otherEvent :: otherWalk) graph other)
include abreast

/-- Reads and writes declare nothing. -/
theorem use (uses : event = .read name ∨ event = .write name)
    (otherUses : otherEvent = .read otherName ∨ otherEvent = .write otherName) :
    Abreast walk otherWalk graph other := by
  refine abreast.advance abreast.code fun _ _ slotOf _ resolves otherResolves => ⟨slotOf, ?_, ?_⟩
  · rcases uses with rfl | rfl <;> exact resolves
  · rcases otherUses with rfl | rfl <;> exact otherResolves

/-- Names that refer to the same declaration stand for the same slot. -/
theorem slot_eq (uses : event = .read name ∨ event = .write name)
    (otherUses : otherEvent = .read otherName ∨ otherEvent = .write otherName)
    {slot otherSlot : Slot} (found : graph.scopes.lookup? name.name = some slot)
    (otherFound : other.scopes.lookup? otherName.name = some otherSlot) : slot = otherSlot := by
  have formed : name.WellFormed := by
    rcases uses with rfl | rfl <;> exact abreast.formed _ List.mem_cons_self
  have otherFormed : otherName.WellFormed := by
    rcases otherUses with rfl | rfl <;> exact abreast.otherFormed _ List.mem_cons_self
  rcases abreast.bound with ⟨past, otherPast, slotOf, -, bindings_eq, resolves, otherResolves⟩
  have declaration_eq :
      declarationOf? name.name 0 past = declarationOf? otherName.name 0 otherPast := by
    have binding_eq := (List.cons.inj bindings_eq).1
    rcases uses with rfl | rfl <;> rcases otherUses with rfl | rfl <;> exact binding_eq
  rw [← Scopes.lookup?_named _ (isTemporary_of_isWord formed), resolves.lookup?] at found
  rw [← Scopes.lookup?_named _ (isTemporary_of_isWord otherFormed), otherResolves.lookup?,
    ← declaration_eq, found] at otherFound
  exact Option.some.inj otherFound

end

end Abreast

/-! ## Steps side by side -/

section Steps

variable {α β γ δ : Type} {related : α → β → Prop} {further : γ → δ → Prop}

/-- Where both steps succeed, what they give is related. -/
def Together (related : α → β → Prop) (step : Except Fault α) (other : Except Fault β) : Prop :=
  ∀ result otherResult, step = .ok result → other = .ok otherResult → related result otherResult

theorem Together.ok {result : α} {otherResult : β} (holds : related result otherResult) :
    Together related (.ok result) (.ok otherResult) := by
  rintro _ _ ⟨⟩ ⟨⟩
  exact holds

theorem Together.bind {step : Except Fault α} {other : Except Fault β} {next : α → Except Fault γ}
    {otherNext : β → Except Fault δ} (together : Together related step other)
    (rest : ∀ result otherResult, related result otherResult →
      Together further (next result) (otherNext otherResult)) :
    Together further (step >>= next) (other >>= otherNext) := by
  intro last otherLast done otherDone
  rcases bind_eq_ok_iff.mp done with ⟨result, stepped, finished⟩
  rcases bind_eq_ok_iff.mp otherDone with ⟨otherResult, otherStepped, otherFinished⟩
  exact rest result otherResult (together result otherResult stepped otherStepped) last otherLast
    finished otherFinished

variable {walk otherWalk : Walk} {graph other : Graph} {name otherName : Ident}

/-- The steps give the same value and graphs with the same code. -/
def Gives (walk otherWalk : Walk) (step other : Except Fault (α × Graph)) : Prop :=
  Together (fun given otherGiven => given.1 = otherGiven.1 ∧
    Abreast walk otherWalk given.2 otherGiven.2) step other

theorem Gives.bind {step other : Except Fault (α × Graph)} {next : α × Graph → Except Fault γ}
    {otherNext : α × Graph → Except Fault δ} (gives : Gives walk otherWalk step other)
    (rest : ∀ value graph otherGraph, Abreast walk otherWalk graph otherGraph →
      Together further (next (value, graph)) (otherNext (value, otherGraph))) :
    Together further (step >>= next) (other >>= otherNext) := by
  refine Together.bind gives ?_
  rintro ⟨value, graph⟩ ⟨_, otherGraph⟩ ⟨rfl, abreast⟩
  exact rest value graph otherGraph abreast

section

variable (abreast : Abreast walk otherWalk graph other)
include abreast

theorem together_add (instruction : Instruction) :
    Together (Abreast walk otherWalk) (graph.add instruction) (other.add instruction) := by
  intro next otherNext added otherAdded
  rcases add_eq_ok_iff.mp added with ⟨-, rfl⟩
  rcases add_eq_ok_iff.mp otherAdded with ⟨-, rfl⟩
  exact abreast.extended instruction

/-- An instruction after which a value is given. -/
theorem gives_add (instruction : Instruction) (value : α) :
    Gives walk otherWalk (graph.add instruction >>= fun graph => .ok (value, graph))
      (other.add instruction >>= fun graph => .ok (value, graph)) :=
  (together_add abreast instruction).bind fun _ _ nextAbreast => .ok ⟨rfl, nextAbreast⟩

variable {change : BasicBlock → BasicBlock}

/-- The current block gets its exits and another one is entered. -/
theorem together_enter {id : BlockId} :
    Together (Abreast walk otherWalk) (graph.modifyBlock graph.current change >>= enterBlock id)
      (other.modifyBlock other.current change >>= enterBlock id) := by
  intro next otherNext entered otherEntered
  rcases modifyBlock_enterBlock_eq_ok_iff.mp entered with ⟨-, rfl⟩
  rcases modifyBlock_enterBlock_eq_ok_iff.mp otherEntered with ⟨-, rfl⟩
  exact abreast.entered change id

theorem together_enter_bind {id : BlockId} {next : Graph → Except Fault γ}
    {otherNext : Graph → Except Fault δ}
    (rest : ∀ graph other, Abreast walk otherWalk graph other →
      Together further (next graph) (otherNext other)) :
    Together further
      (graph.modifyBlock graph.current change >>= fun linked => enterBlock id linked >>= next)
      (other.modifyBlock other.current change >>= fun linked =>
        enterBlock id linked >>= otherNext) := by
  rw [← bind_assoc, ← bind_assoc]
  exact (together_enter abreast).bind rest

theorem gives_temporary : Gives walk otherWalk (temporary graph) (temporary other) := by
  rintro ⟨slot, next⟩ ⟨otherSlot, otherNext⟩ taken otherTaken
  rcases temporary_eq_ok_iff.mp taken with ⟨-, rfl, rfl⟩
  rcases temporary_eq_ok_iff.mp otherTaken with ⟨-, rfl, rfl⟩
  exact ⟨abreast.code.nextKey_eq, abreast.withTemporary⟩

end

theorem gives_declareVariable
    (abreast : Abreast (.declare name :: walk) (.declare otherName :: otherWalk) graph other) :
    Gives walk otherWalk (graph.declareVariable name.name .int).accepted
      (other.declareVariable otherName.name .int).accepted := by
  rintro ⟨slot, next⟩ ⟨otherSlot, otherNext⟩ declared otherDeclared
  rcases declareVariable_eq_ok_iff.mp declared with ⟨-, rfl, rfl⟩
  rcases declareVariable_eq_ok_iff.mp otherDeclared with ⟨-, rfl, rfl⟩
  exact ⟨abreast.code.nextKey_eq, abreast.declare⟩

theorem together_leaveScope
    (abreast : Abreast (.leave :: walk) (.leave :: otherWalk) graph other) :
    Together (Abreast walk otherWalk) graph.leaveScope other.leaveScope := by
  intro next otherNext left otherLeft
  rcases leaveScope_eq_ok_iff.mp left with ⟨outer, outer_eq, rfl⟩
  rcases leaveScope_eq_ok_iff.mp otherLeft with ⟨otherOuter, otherOuter_eq, rfl⟩
  exact abreast.leave outer_eq otherOuter_eq

/-- Names that refer to the same declaration are used for the same slot. -/
theorem together_resolve_bind {event otherEvent : ScopeEvent}
    (abreast : Abreast (event :: walk) (otherEvent :: otherWalk) graph other)
    (uses : event = .read name ∨ event = .write name)
    (otherUses : otherEvent = .read otherName ∨ otherEvent = .write otherName)
    {next : Slot → Except Fault γ} {otherNext : Slot → Except Fault δ}
    (rest : ∀ slot, Abreast walk otherWalk graph other →
      Together further (next slot) (otherNext slot)) :
    Together further (resolve name.name graph >>= next)
      (resolve otherName.name other >>= otherNext) := by
  have same : Together Eq (resolve name.name graph) (resolve otherName.name other) :=
    fun slot otherSlot found otherFound => abreast.slot_eq uses otherUses
      (resolve_eq_ok_iff.mp found) (resolve_eq_ok_iff.mp otherFound)
  refine same.bind ?_
  rintro slot _ rfl
  exact rest slot (abreast.use uses otherUses)

section

variable (abreast : Abreast walk otherWalk graph other)
include abreast

theorem gives_constant (number : Int32) :
    Gives walk otherWalk (constant number graph) (constant number other) := by
  rw [constant, constant]
  exact (gives_temporary abreast).bind fun target _ _ taken => gives_add taken _ target

theorem gives_lowerStep (op : StepOp) (fixity : Fixity) (operand : Slot) :
    Gives walk otherWalk (lowerStep op fixity operand graph)
      (lowerStep op fixity operand other) := by
  rw [lowerStep, lowerStep]
  refine (gives_temporary abreast).bind fun target _ _ taken => ?_
  cases fixity
  all_goals
    exact (together_add taken _).bind fun _ _ added => gives_add added _ target

theorem gives_splitLogical (op : LogicalOp) (left : Slot) :
    Gives walk otherWalk (splitLogical op left graph) (splitLogical op left other) := by
  simp only [splitLogical, createLogicalBlocks_eq, logicalBlocks, abreast.code.newKey_eq]
  cases op
  all_goals
    exact together_enter_bind (abreast.createdAll _) fun _ _ nextAbreast => .ok ⟨rfl, nextAbreast⟩

theorem together_joinLogical (blocks : LogicalBlocks) (result right : Slot) :
    Together (Abreast walk otherWalk) (joinLogical blocks result right graph)
      (joinLogical blocks result right other) := by
  rw [joinLogical, joinLogical]
  refine together_enter_bind abreast fun _ _ isTrue => ?_
  exact (together_add isTrue _).bind fun _ _ filled => together_enter filled

end

end Steps

/-! ## Expressions -/

variable {defined : String → Bool}

/-- An assignment uses its target. -/
theorem assign_uses (op : Option (ArithmeticOp × Span)) (target : Ident) :
    (if op.isSome then ScopeEvent.read target else .write target) = .read target ∨
      (if op.isSome then ScopeEvent.read target else .write target) = .write target := by
  cases op with
  | none => exact .inr rfl
  | some _ => exact .inl rfl

theorem value_eq_of_erased {written other : Literal} (erased_eq : written.erased = other.erased) :
    written.value = other.value := by
  rcases written with ⟨kind, text, span⟩
  rcases other with ⟨otherKind, otherText, otherSpan⟩
  cases erased_eq
  rfl

mutual

/-- Expressions side by side give the same slot. -/
theorem gives_lowerExpr (value otherValue : Expr) {walk otherWalk : Walk} {graph other : Graph}
    (outline_eq : value.outline = otherValue.outline)
    (abreast : Abreast (value.events ++ walk) (otherValue.events ++ otherWalk) graph other) :
    Gives walk otherWalk (lowerExpr defined value graph) (lowerExpr defined otherValue other) := by
  cases value <;> cases otherValue <;> try (cases outline_eq; done)
  case literal.literal written otherWritten =>
    rw [lowerExpr, lowerExpr, value_eq_of_erased (Expr.literal.inj outline_eq)]
    cases otherWritten.value with
    | error fault => exact nofun
    | ok number => exact gives_constant abreast number
  case identifier.identifier name otherName =>
    rw [lowerExpr, lowerExpr]
    exact together_resolve_bind abreast (.inl rfl) (.inl rfl) fun _ used => .ok ⟨rfl, used⟩
  case group.group _ inner _ otherInner =>
    rw [lowerExpr, lowerExpr]
    exact gives_lowerExpr inner otherInner (Expr.group.inj outline_eq).2 abreast
  case call.call _ callee arguments _ otherCallee otherArguments =>
    simp only [Expr.outline, Expr.call.injEq, true_and, Ident.erased, Ident.mk.injEq,
      and_true] at outline_eq
    rcases outline_eq with ⟨callee_eq, arguments_eq⟩
    rw [lowerExpr, lowerExpr, callee_eq]
    refine (gives_temporary abreast).bind fun target _ _ taken => ?_
    exact (gives_lowerArguments arguments otherArguments arguments_eq taken).bind
      fun _ _ _ evaluated => gives_add evaluated _ target
  case binary.binary _ op _ left right _ otherOp _ otherLeft otherRight =>
    simp only [Expr.outline, Expr.binary.injEq, true_and] at outline_eq
    rcases outline_eq with ⟨rfl, left_eq, right_eq⟩
    rw [Expr.events, Expr.events, List.append_assoc, List.append_assoc] at abreast
    rcases exists_operator_or_logical op with ⟨make, strict⟩ | ⟨op, rfl⟩
    · rw [lowerExpr_operator strict, lowerExpr_operator strict]
      refine (gives_temporary abreast).bind fun target _ _ taken => ?_
      refine (gives_lowerExpr left otherLeft left_eq taken).bind fun _ _ _ leftDone => ?_
      exact (gives_lowerExpr right otherRight right_eq leftDone).bind
        fun _ _ _ rightDone => gives_add rightDone _ target
    · rw [lowerExpr, lowerExpr]
      refine (gives_constant abreast 0).bind fun result _ _ started => ?_
      refine (gives_lowerExpr left otherLeft left_eq started).bind fun slot _ _ leftDone => ?_
      refine (gives_splitLogical leftDone op slot).bind fun blocks _ _ split => ?_
      refine (gives_lowerExpr right otherRight right_eq split).bind fun slot _ _ rightDone => ?_
      exact (together_joinLogical rightDone blocks result slot).bind
        fun _ _ joined => .ok ⟨rfl, joined⟩
  case unary.unary _ op _ operand _ otherOp _ otherOperand =>
    simp only [Expr.outline, Expr.unary.injEq, true_and] at outline_eq
    rcases outline_eq with ⟨rfl, operand_eq⟩
    rw [lowerExpr, lowerExpr]
    refine (gives_lowerExpr operand otherOperand operand_eq abreast).bind fun _ _ _ evaluated => ?_
    refine (gives_temporary evaluated).bind fun target _ _ taken => ?_
    exact (together_add taken _).bind fun _ _ copied => gives_add copied _ target
  case step.step _ op fixity target _ otherOp otherFixity otherTarget =>
    simp only [Expr.outline, Expr.step.injEq, true_and, and_true] at outline_eq
    rcases outline_eq with ⟨rfl, rfl⟩
    rw [lowerExpr, lowerExpr]
    exact together_resolve_bind abreast (.inl rfl) (.inl rfl)
      fun slot used => gives_lowerStep used op fixity slot
  case assign.assign _ target op assigned _ otherTarget otherOp otherAssigned =>
    simp only [Expr.outline, Expr.assign.injEq, true_and] at outline_eq
    rcases outline_eq with ⟨op_eq, value_eq⟩
    have operators_eq : op.map Prod.fst = otherOp.map Prod.fst := by
      simpa [Function.comp_def] using congrArg (Option.map Prod.fst) op_eq
    rw [Expr.events, Expr.events, List.append_assoc, List.append_assoc] at abreast
    rw [lowerExpr, lowerExpr, operators_eq]
    refine (gives_lowerExpr assigned otherAssigned value_eq abreast).bind fun _ _ _ evaluated => ?_
    exact together_resolve_bind evaluated (assign_uses op target)
      (assign_uses otherOp otherTarget) fun slot used => gives_add used _ slot

theorem gives_lowerArguments (arguments otherArguments : List Expr) {walk otherWalk : Walk}
    {graph other : Graph} (outline_eq : Expr.outlines arguments = Expr.outlines otherArguments)
    (abreast : Abreast (Expr.eventsOfAll arguments ++ walk)
      (Expr.eventsOfAll otherArguments ++ otherWalk) graph other) :
    Gives walk otherWalk (lowerArguments defined arguments graph)
      (lowerArguments defined otherArguments other) := by
  match arguments, otherArguments with
  | [], [] =>
    rw [lowerArguments, lowerArguments]
    exact .ok ⟨rfl, abreast⟩
  | first :: others, otherFirst :: otherOthers =>
    rcases List.cons.inj outline_eq with ⟨first_eq, others_eq⟩
    rw [Expr.eventsOfAll, Expr.eventsOfAll, List.append_assoc, List.append_assoc] at abreast
    rw [lowerArguments, lowerArguments]
    refine (gives_lowerExpr first otherFirst first_eq abreast).bind fun _ _ _ firstDone => ?_
    exact (gives_lowerArguments others otherOthers others_eq firstDone).bind
      fun _ _ _ othersDone => .ok ⟨rfl, othersDone⟩
  | [], _ :: _ | _ :: _, [] => cases outline_eq

end

section Parts

variable {walk otherWalk : Walk} {graph other : Graph}

/-- Expressions side by side whose values are not used. -/
theorem together_lowerEffect {value otherValue : Expr}
    (outline_eq : value.outline = otherValue.outline)
    (abreast : Abreast (value.events ++ walk) (otherValue.events ++ otherWalk) graph other) :
    Together (Abreast walk otherWalk) (lowerEffect defined value graph)
      (lowerEffect defined otherValue other) :=
  (gives_lowerExpr value otherValue outline_eq abreast).bind fun _ _ _ evaluated => .ok evaluated

/-! ## Declarations -/

theorem together_lowerDeclarator {declarator otherDeclarator : Declarator}
    (outline_eq : declarator.outline = otherDeclarator.outline)
    (abreast : Abreast (declarator.events ++ walk) (otherDeclarator.events ++ otherWalk) graph
      other) :
    Together (Abreast walk otherWalk) (lowerDeclarator defined declarator graph)
      (lowerDeclarator defined otherDeclarator other) := by
  rcases declarator with ⟨span, name, initializer⟩
  rcases otherDeclarator with ⟨otherSpan, otherName, otherInitializer⟩
  rw [lowerDeclarator, lowerDeclarator]
  rcases initializer with _ | value <;> rcases otherInitializer with _ | otherValue
  · exact (gives_declareVariable abreast).bind fun _ _ _ declared => .ok declared
  · cases outline_eq
  · cases outline_eq
  · simp only [Declarator.outline, Declarator.mk.injEq, true_and, Option.map_some,
      Option.some.injEq] at outline_eq
    simp only [Declarator.events, List.cons_append, List.append_assoc] at abreast
    refine (gives_declareVariable abreast).bind fun slot _ _ declared => ?_
    exact (gives_lowerExpr value otherValue outline_eq declared).bind
      fun _ _ _ evaluated => together_add (evaluated.use (.inr rfl) (.inr rfl)) _

theorem together_lowerDeclarators {declarators otherDeclarators : List Declarator}
    (outline_eq : declarators.map Declarator.outline = otherDeclarators.map Declarator.outline)
    (abreast : Abreast (Declarator.eventsOfAll declarators ++ walk)
      (Declarator.eventsOfAll otherDeclarators ++ otherWalk) graph other) :
    Together (Abreast walk otherWalk) (lowerDeclarators defined declarators graph)
      (lowerDeclarators defined otherDeclarators other) := by
  induction declarators generalizing otherDeclarators graph other with
  | nil =>
    cases otherDeclarators with
    | nil => exact .ok abreast
    | cons _ _ => cases outline_eq
  | cons first others ih =>
    cases otherDeclarators with
    | nil => cases outline_eq
    | cons otherFirst otherOthers =>
      rcases List.cons.inj outline_eq with ⟨first_eq, others_eq⟩
      simp only [Declarator.eventsOfAll, List.append_assoc] at abreast
      exact (together_lowerDeclarator first_eq abreast).bind
        fun _ _ firstDone => ih others_eq firstDone

theorem together_lowerForInitializer {initializer otherInitializer : Option ForInitializer}
    (outline_eq : initializer.map ForInitializer.outline =
      otherInitializer.map ForInitializer.outline)
    (abreast : Abreast (ForInitializer.events initializer ++ walk)
      (ForInitializer.events otherInitializer ++ otherWalk) graph other) :
    Together (Abreast walk otherWalk) (lowerForInitializer defined initializer graph)
      (lowerForInitializer defined otherInitializer other) := by
  match initializer, otherInitializer with
  | none, none => exact .ok abreast
  | some (.declaration declarators), some (.declaration otherDeclarators) =>
    simp only [Option.map_some, ForInitializer.outline, Option.some.injEq,
      ForInitializer.declaration.injEq] at outline_eq
    exact together_lowerDeclarators outline_eq abreast
  | some (.expression value), some (.expression otherValue) =>
    simp only [Option.map_some, ForInitializer.outline, Option.some.injEq,
      ForInitializer.expression.injEq] at outline_eq
    exact together_lowerEffect outline_eq abreast
  | none, some _ | some _, none | some (.declaration _), some (.expression _)
  | some (.expression _), some (.declaration _) => cases outline_eq

/-! ## For statements -/

/-- The blocks of `for` statements side by side: only what is evaluated after the body differs. -/
theorem forBlocks_eq (code : SameCode graph other) {after otherAfter : Option Expr}
    (outline_eq : after.map Expr.outline = otherAfter.map Expr.outline) :
    forTags after = forTags otherAfter ∧
      (forBlocks graph after).test = (forBlocks other otherAfter).test ∧
        (forBlocks graph after).body = (forBlocks other otherAfter).body ∧
          (forBlocks graph after).out = (forBlocks other otherAfter).out ∧
            (forBlocks graph after).targets = (forBlocks other otherAfter).targets := by
  match after, otherAfter with
  | none, none | some _, some _ => simp [forTags, forBlocks, ForBlocks.targets, code.newKey_eq]
  | none, some _ | some _, none => cases outline_eq

/-- The test of a `for` statement, and what follows in the block of the body. -/
theorem together_lowerForTest_bind {α β : Type} {related : α → β → Prop}
    {blocks otherBlocks : ForBlocks} {test otherTest : Option Expr}
    (body_eq : blocks.body = otherBlocks.body) (out_eq : blocks.out = otherBlocks.out)
    (outline_eq : test.map Expr.outline = otherTest.map Expr.outline)
    (abreast : Abreast (Expr.eventsOfOption test ++ walk)
      (Expr.eventsOfOption otherTest ++ otherWalk) graph other)
    {next : Graph → Except Fault α} {otherNext : Graph → Except Fault β}
    (rest : ∀ graph other, Abreast walk otherWalk graph other →
      Together related (next graph) (otherNext other)) :
    Together related
      (lowerForTest defined blocks test graph >>= fun linked =>
        enterBlock blocks.body linked >>= next)
      (lowerForTest defined otherBlocks otherTest other >>= fun linked =>
        enterBlock otherBlocks.body linked >>= otherNext) := by
  match test, otherTest with
  | none, none =>
    rw [lowerForTest, lowerForTest, body_eq]
    exact together_enter_bind abreast rest
  | some value, some otherValue =>
    rw [lowerForTest, lowerForTest, body_eq, out_eq, bind_assoc, bind_assoc]
    exact (gives_lowerExpr value otherValue (Option.some.inj outline_eq) abreast).bind
      fun _ _ _ tested => together_enter_bind tested rest
  | none, some _ | some _, none => cases outline_eq

theorem together_lowerForAfter {started otherStarted : Graph} {after otherAfter : Option Expr}
    (code : SameCode started otherStarted)
    (outline_eq : after.map Expr.outline = otherAfter.map Expr.outline)
    (abreast : Abreast (Expr.eventsOfOption after ++ walk)
      (Expr.eventsOfOption otherAfter ++ otherWalk) graph other) :
    Together (Abreast walk otherWalk) (lowerForAfter defined (forBlocks started after) graph)
      (lowerForAfter defined (forBlocks otherStarted otherAfter) other) := by
  match after, otherAfter with
  | none, none => exact .ok abreast
  | some value, some otherValue =>
    simp only [lowerForAfter, forBlocks, code.newKey_eq]
    exact together_enter_bind abreast fun _ _ entered =>
      together_lowerEffect (Option.some.inj outline_eq) entered
  | none, some _ | some _, none => cases outline_eq

end Parts

/-! ## Statements -/

mutual

/-- Statements side by side keep graphs with the same code. -/
theorem together_lowerStmt {loop : Option LoopTargets} (statement otherStatement : Stmt)
    {walk otherWalk : Walk} {graph other : Graph}
    (outline_eq : statement.outline = otherStatement.outline)
    (abreast : Abreast (statement.events ++ walk) (otherStatement.events ++ otherWalk) graph
      other) :
    Together (Abreast walk otherWalk) (lowerStmt defined loop statement graph)
      (lowerStmt defined loop otherStatement other) := by
  cases statement <;> cases otherStatement <;> try (cases outline_eq; done)
  case declaration.declaration _ declarators _ otherDeclarators =>
    rw [lowerStmt, lowerStmt]
    exact together_lowerDeclarators (Stmt.declaration.inj outline_eq).2 abreast
  case expression.expression _ value _ otherValue =>
    rw [lowerStmt, lowerStmt]
    exact together_lowerEffect (Stmt.expression.inj outline_eq).2 abreast
  case block.block _ statements _ otherStatements =>
    simp only [Stmt.events, List.cons_append, List.append_assoc] at abreast
    rw [lowerStmt, lowerStmt]
    exact (together_lowerStmts statements otherStatements (Stmt.block.inj outline_eq).2
      abreast.enter).bind fun _ _ inside => together_leaveScope inside
  case ifThen.ifThen _ condition positive _ otherCondition otherPositive =>
    simp only [Stmt.outline, Stmt.ifThen.injEq, true_and] at outline_eq
    rcases outline_eq with ⟨condition_eq, positive_eq⟩
    simp only [Stmt.events, List.append_assoc] at abreast
    rw [lowerStmt, lowerStmt]
    refine (gives_lowerExpr condition otherCondition condition_eq abreast).bind
      fun _ _ _ tested => ?_
    simp only [createBlock_eq, newKey_created, tested.code.newKey_eq]
    refine together_enter_bind ((tested.created _).created _) fun _ _ entered => ?_
    exact (together_lowerStmt positive otherPositive positive_eq entered).bind
      fun _ _ done => together_enter done
  case ifElse.ifElse _ condition positive negative _ otherCondition otherPositive otherNegative =>
    simp only [Stmt.outline, Stmt.ifElse.injEq, true_and] at outline_eq
    rcases outline_eq with ⟨condition_eq, positive_eq, negative_eq⟩
    simp only [Stmt.events, List.append_assoc] at abreast
    rw [lowerStmt, lowerStmt]
    refine (gives_lowerExpr condition otherCondition condition_eq abreast).bind
      fun _ _ _ tested => ?_
    simp only [createBlock_eq, newKey_created, tested.code.newKey_eq]
    refine together_enter_bind (((tested.created _).created _).created _) fun _ _ entered => ?_
    refine (together_lowerStmt positive otherPositive positive_eq entered).bind fun _ _ done => ?_
    refine together_enter_bind done fun _ _ entered => ?_
    exact (together_lowerStmt negative otherNegative negative_eq entered).bind
      fun _ _ done => together_enter done
  case whileLoop.whileLoop _ condition body _ otherCondition otherBody =>
    simp only [Stmt.outline, Stmt.whileLoop.injEq, true_and] at outline_eq
    rcases outline_eq with ⟨condition_eq, body_eq⟩
    simp only [Stmt.events, List.append_assoc] at abreast
    simp only [lowerStmt, createBlock_eq, newKey_created, abreast.code.newKey_eq]
    refine together_enter_bind (((abreast.created _).created _).created _) fun _ _ entered => ?_
    refine (gives_lowerExpr condition otherCondition condition_eq entered).bind
      fun _ _ _ tested => ?_
    refine together_enter_bind tested fun _ _ entered => ?_
    exact (together_lowerStmt body otherBody body_eq entered).bind
      fun _ _ done => together_enter done
  case doWhile.doWhile _ body condition _ otherBody otherCondition =>
    simp only [Stmt.outline, Stmt.doWhile.injEq, true_and] at outline_eq
    rcases outline_eq with ⟨body_eq, condition_eq⟩
    simp only [Stmt.events, List.append_assoc] at abreast
    simp only [lowerStmt, createBlock_eq, newKey_created, abreast.code.newKey_eq]
    refine together_enter_bind (((abreast.created _).created _).created _) fun _ _ entered => ?_
    refine (together_lowerStmt body otherBody body_eq entered).bind fun _ _ done => ?_
    refine together_enter_bind done fun _ _ entered => ?_
    exact (gives_lowerExpr condition otherCondition condition_eq entered).bind
      fun _ _ _ tested => together_enter tested
  case forLoop.forLoop _ initializer test after body _ otherInitializer otherTest otherAfter otherBody =>
    simp only [Stmt.outline, Stmt.forLoop.injEq, true_and] at outline_eq
    rcases outline_eq with ⟨initializer_eq, test_eq, after_eq, body_eq⟩
    simp only [Stmt.events, List.cons_append, List.append_assoc] at abreast
    simp only [lowerStmt, createForBlocks_eq]
    refine (together_lowerForInitializer initializer_eq abreast.enter).bind fun _ _ started => ?_
    rcases forBlocks_eq started.code after_eq with
      ⟨tags_eq, testBlock_eq, bodyBlock_eq, out_eq, targets_eq⟩
    rw [tags_eq, testBlock_eq, targets_eq, out_eq]
    refine together_enter_bind (started.createdAll _) fun _ _ entered => ?_
    refine together_lowerForTest_bind bodyBlock_eq out_eq test_eq entered fun _ _ tested => ?_
    refine (together_lowerStmt body otherBody body_eq tested).bind fun _ _ done => ?_
    refine (together_lowerForAfter started.code after_eq done).bind fun _ _ ended => ?_
    exact together_enter_bind ended fun _ _ out => together_leaveScope out
  case breakLoop.breakLoop _ _ | continueLoop.continueLoop _ _ =>
    rw [lowerStmt, lowerStmt]
    cases loop with
    | none => exact nofun
    | some targets => exact together_add abreast _
  case returnValue.returnValue _ value _ otherValue =>
    match value, otherValue with
    | none, none =>
      rw [lowerStmt, lowerStmt]
      exact together_add abreast _
    | some value, some otherValue =>
      simp only [Stmt.outline, Stmt.returnValue.injEq, true_and, Option.map_some,
        Option.some.injEq] at outline_eq
      rw [lowerStmt, lowerStmt]
      exact (gives_lowerExpr value otherValue outline_eq abreast).bind
        fun _ _ _ evaluated => together_add evaluated _
    | none, some _ | some _, none => cases outline_eq
  case empty.empty _ _ =>
    rw [lowerStmt, lowerStmt]
    exact .ok abreast

theorem together_lowerStmts {loop : Option LoopTargets} (statements otherStatements : List Stmt)
    {walk otherWalk : Walk} {graph other : Graph}
    (outline_eq : Stmt.outlines statements = Stmt.outlines otherStatements)
    (abreast : Abreast (Stmt.eventsOfAll statements ++ walk)
      (Stmt.eventsOfAll otherStatements ++ otherWalk) graph other) :
    Together (Abreast walk otherWalk) (lowerStmts defined loop statements graph)
      (lowerStmts defined loop otherStatements other) := by
  match statements, otherStatements with
  | [], [] =>
    rw [lowerStmts, lowerStmts]
    exact .ok abreast
  | first :: others, otherFirst :: otherOthers =>
    rcases List.cons.inj outline_eq with ⟨first_eq, others_eq⟩
    rw [Stmt.eventsOfAll, Stmt.eventsOfAll, List.append_assoc, List.append_assoc] at abreast
    rw [lowerStmts, lowerStmts]
    exact (together_lowerStmt first otherFirst first_eq abreast).bind
      fun _ _ firstDone => together_lowerStmts others otherOthers others_eq firstDone
  | [], _ :: _ | _ :: _, [] => cases outline_eq

end

/-! ## Functions -/

theorem Takes.abreast {parameters otherParameters : List Parameter} {walk otherWalk : Walk}
    {graph other next otherNext : Graph} (takes : Takes parameters graph next)
    (length_eq : parameters.length = otherParameters.length)
    (otherTakes : Takes otherParameters other otherNext)
    (abreast : Abreast
      (parameters.map (fun parameter => ScopeEvent.parameter parameter.name) ++ walk)
      (otherParameters.map (fun parameter => ScopeEvent.parameter parameter.name) ++ otherWalk)
      graph other) :
    Abreast walk otherWalk next otherNext := by
  induction takes generalizing otherParameters other with
  | nil _ =>
    cases otherTakes with
    | nil _ => exact abreast
    | cons _ _ _ _ _ => cases length_eq
  | @cons first others graph next _ _ _ _ _ ih =>
    cases otherTakes with
    | nil _ => cases length_eq
    | cons _ _ _ _ otherRest =>
      have size_eq := abreast.code.size_symbols_eq
      have taken := abreast.parameter graph.symbols.size
      exact ih (Nat.succ.inj length_eq) otherRest (by rwa [← size_eq])

/-- Functions with the same outline and the same bindings have the same code. -/
theorem sameCode_lowerFunction {function other : FunctionDef} {graph otherGraph : Graph}
    (formed : function.WellFormed) (otherFormed : other.WellFormed)
    (outline_eq : function.outline = other.outline)
    (bindings_eq : function.walk.bindings = other.walk.bindings)
    (lowered : lowerFunction defined function = .ok graph)
    (otherLowered : lowerFunction defined other = .ok otherGraph) : SameCode graph otherGraph := by
  simp only [FunctionDef.outline, FunctionDef.mk.injEq, true_and, Ident.erased, Ident.mk.injEq,
    and_true, Block.mk.injEq] at outline_eq
  rcases outline_eq with ⟨name_eq, parameters_eq, body_eq⟩
  have length_eq : function.parameters.length = other.parameters.length := by
    simpa using congrArg List.length parameters_eq
  rcases lowerFunction_eq_ok_iff.mp lowered with
    ⟨taken, inside, outer, declared, insideLowered, left, rfl⟩
  rcases lowerFunction_eq_ok_iff.mp otherLowered with
    ⟨otherTaken, otherInside, otherOuter, otherDeclared, otherInsideLowered, otherLeft, rfl⟩
  have started :
      Abreast function.walk other.walk (.new function.name.name) (.new other.name.name) := by
    rw [name_eq]
    exact ⟨rfl, function.wellFormed_walk formed, other.wellFormed_walk otherFormed, [], [],
      fun _ => ⟨0⟩, rfl, bindings_eq, .single _, .single _⟩
  have takenAbreast := (takes_parameters formed declared).abreast length_eq
    (takes_parameters otherFormed otherDeclared) started
  exact (together_lowerStmts _ _ body_eq takenAbreast.enter _ _ insideLowered
    otherInsideLowered).code

end SmallC.Lowering
