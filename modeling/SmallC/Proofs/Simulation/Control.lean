import SmallC.Proofs.Simulation.Expression

/-!
# Control flow on the machine

The code of a statement leads a machine to the place that fits the way in which the statement ends: to
the end of the code, to one of the targets of the loop around it, or out of the function.  The code of
a control statement is made of arms, each of which runs from the start of one block to the start of
another, and of decisions between blocks.
-/

namespace SmallC

open Evaluation Execution Lowering SmallC.Graph

-- The equations of the evaluator are used all over this module, so they are made here, once.
attribute [local simp] execStmt

/-! ## Ends of statements -/

namespace Site

variable (site : Site)

/-- A machine at the end of the code written so far, where some variables are in scope. -/
def Continues (slots : Scopes Slot) (next : Graph) (state : State) (machine : Machine) : Prop :=
  ∃ store, machine = site.atEnd next store state.trace ∧ Agrees slots state.scopes store

/-- A machine at the start of a block, where some variables are in scope. -/
def Starts (slots : Scopes Slot) (id : BlockId) (state : State) (machine : Machine) : Prop :=
  ∃ store, machine = site.atStart id store state.trace ∧ Agrees slots state.scopes store

/-- A machine after the running function has returned. -/
def Returns (value : Option Int32) (trace : Trace) (machine : Machine) : Prop :=
  match site.callers with
  | [] => machine = .returned value trace
  | (target, caller) :: others =>
    ∃ result, (∀ number ∈ value, result = number) ∧
      machine = .running (World.resume target caller result) others trace

/-- A machine after a statement inside a loop.  Where the statement jumps, possible variables are in
scope. -/
def Ends (possible : Scopes Slot → Prop) (loop : Option LoopTargets) (next : Graph)
    (result : Signal × State) (machine : Machine) : Prop :=
  match result.1 with
  | .normal => site.Continues next.scopes.named next result.2 machine
  | .broke =>
    ∃ targets ∈ loop, ∃ slots, possible slots ∧ site.Starts slots targets.onBreak result.2 machine
  | .continued =>
    ∃ targets ∈ loop, ∃ slots, possible slots ∧
      site.Starts slots targets.onContinue result.2 machine
  | .returned value => site.Returns value result.2.trace machine

/-- The code between two graphs executes a statement. -/
def Executes (loop : Option LoopTargets) (statement : Stmt) (graph next : Graph) : Prop :=
  ∀ store state, Agrees graph.scopes.named state.scopes store →
    site.world.Simulates site.limit (site.atEnd graph store state.trace)
      (execStmt site.call site.limit statement state)
      (site.Ends (· = graph.scopes.named) loop next)

/-- The code between two graphs executes statements. -/
def ExecutesAll (loop : Option LoopTargets) (statements : List Stmt) (graph next : Graph) : Prop :=
  ∀ store state, Agrees graph.scopes.named state.scopes store →
    site.world.Simulates site.limit (site.atEnd graph store state.trace)
      (execStmts site.call site.limit statements state)
      (site.Ends (·.enclosing = graph.scopes.named.enclosing) loop next)

end Site

variable {site : Site} {program : Program} {graph next : Graph} {loop : Option LoopTargets}
  {state : State} {machine : Machine}

/-- Leaving a function brings the machine back to the caller, or to its end. -/
theorem returns_leave (active : Activation) (value : Option Int32) (trace : Trace) :
    site.Returns value trace (site.world.makeMove active site.callers trace (.leave value)) := by
  unfold Site.Returns World.makeMove
  cases site.callers with
  | nil => rfl
  | cons caller others =>
    refine ⟨_, ?_, rfl⟩
    rintro number ⟨⟩
    rfl

theorem Execution.World.Simulates.further {α : Type} {world : World} {limit : Nat}
    {outcome : Except Halt α} {goal other : α → Machine → Prop}
    (simulates : world.Simulates limit machine outcome goal)
    (goesOn : ∀ result machine, goal result machine →
      world.Simulates limit machine (.ok result) other) :
    world.Simulates limit machine outcome other := by
  have both := simulates.bind goesOn
  rwa [show outcome >>= Except.ok = outcome from bind_pure outcome] at both

/-! ## Scopes -/

/-- Closing a scope that was opened. -/
theorem agrees_leave {inside slots : Scopes Slot} {store : Store}
    (agrees : Agrees inside state.scopes store) (enclosing_eq : inside.enclosing = slots.all) :
    Agrees slots state.leave.scopes store := by
  have left := Scopes.Related.leave? agrees
  have inside_left : inside.leave? = some slots := by
    rw [Scopes.leave?, enclosing_eq]
    rfl
  rw [inside_left] at left
  unfold State.leave
  cases outer_eq : state.scopes.leave? with
  | none => rw [outer_eq] at left; cases left
  | some outer =>
    rw [outer_eq] at left
    cases left with
    | some related => exact related

/-- Closing a scope does not change the calls so far. -/
@[simp]
theorem trace_leave (state : State) : state.leave.trace = state.trace := by
  unfold State.leave
  split <;> rfl

/-! ## Expressions in statements -/

theorem simulates_evalEffect {value : Expr} {slot : Slot} {slots : Scopes Slot}
    (evaluates : site.Evaluates slots value graph slot next) {store : Store}
    (agrees : Agrees slots state.scopes store) :
    site.world.Simulates site.limit (site.atEnd graph store state.trace)
      (evalEffect site.call value state) (site.Continues slots next) := by
  refine (evaluates store state agrees).bind ?_
  rintro ⟨value, later⟩ _ ⟨after, rfl, follows, -⟩
  exact .ok ⟨after, rfl, follows.agrees⟩

/-! ## Decisions -/

/-- The code after a graph evaluates a condition, and one step later the machine is at the block that
the condition selects. -/
def Site.Decides (site : Site) (slots : Scopes Slot) (condition : Option Expr) (graph : Graph)
    (onTrue onFalse : BlockId) : Prop :=
  ∀ store state, Agrees slots state.scopes store →
    site.world.Simulates site.limit (site.atEnd graph store state.trace)
      (evalCondition site.call condition state) fun result machine =>
        site.Starts slots (if result.1 then onTrue else onFalse) result.2 (site.world.step machine)

theorem decides_of_branchesTo {condition : Expr} {test : Slot} {slots : Scopes Slot}
    {onTrue onFalse : BlockId} (evaluates : site.Evaluates slots condition graph test next)
    (branches : site.BranchesTo next test onTrue onFalse) :
    site.Decides slots (some condition) graph onTrue onFalse := by
  intro store state agrees
  refine (evaluates store state agrees).demand.bind ?_
  rintro ⟨value, later⟩ _ ⟨after, rfl, follows, holds⟩
  refine .ok ⟨after, ?_, follows.agrees⟩
  rw [branches, holds value rfl]
  by_cases isZero : value = 0
  · simp [isZero]
  · simp [isZero]

/-- A missing condition is a jump. -/
theorem decides_of_jumpsTo {slots : Scopes Slot} {onTrue onFalse : BlockId}
    (jumps : site.JumpsTo graph onTrue) : site.Decides slots none graph onTrue onFalse :=
  fun store state agrees => .ok ⟨store, jumps store state.trace, agrees⟩

/-! ## Arms -/

/-- A machine after an arm: at the block where the arm leads, or where the statement jumps to. -/
def Site.Leaves (site : Site) (slots : Scopes Slot) (loop : Option LoopTargets) (finish : BlockId)
    (result : Signal × State) (machine : Machine) : Prop :=
  match result.1 with
  | .normal => site.Starts slots finish result.2 machine
  | .broke => ∃ targets ∈ loop, site.Starts slots targets.onBreak result.2 machine
  | .continued => ∃ targets ∈ loop, site.Starts slots targets.onContinue result.2 machine
  | .returned value => site.Returns value result.2.trace machine

/-- The code of a statement from the start of one block to the start of another. -/
def Site.Arm (site : Site) (slots : Scopes Slot) (loop : Option LoopTargets) (statement : Stmt)
    (start finish : BlockId) : Prop :=
  ∀ state machine, site.Starts slots start state machine →
    site.world.Simulates site.limit machine (execStmt site.call site.limit statement state)
      (site.Leaves slots loop finish)

variable {slots : Scopes Slot} {statement : Stmt} {start finish : BlockId}

theorem arm_of_executes (executes : site.Executes loop statement graph next)
    (opens : site.Opens graph start) (named_eq : graph.scopes.named = slots)
    (next_named_eq : next.scopes.named = slots) (jumps : site.JumpsTo next finish) :
    site.Arm slots loop statement start finish := by
  rintro state _ ⟨store, rfl, agrees⟩
  rw [← opens]
  refine (executes store state (named_eq ▸ agrees)).further ?_
  rintro ⟨signal, later⟩ machine ends
  cases signal with
  | normal =>
    obtain ⟨after, rfl, laterAgrees⟩ := ends
    exact .of_step (jumps after later.trace) (.ok ⟨after, rfl, next_named_eq ▸ laterAgrees⟩)
  | broke | continued =>
    obtain ⟨targets, isLoop, _, rfl, starts⟩ := ends
    exact .ok ⟨targets, isLoop, named_eq ▸ starts⟩
  | returned value => exact .ok ends

/-- A statement whose code ends where its arm leads. -/
theorem ends_of_leaves (opens : site.Opens next finish) (next_named_eq : next.scopes.named = slots)
    {result : Signal × State} (leaves : site.Leaves slots loop finish result machine) :
    site.Ends (· = slots) loop next result machine := by
  obtain ⟨signal, state⟩ := result
  cases signal with
  | normal =>
    obtain ⟨store, rfl, agrees⟩ := leaves
    exact ⟨store, (opens store state.trace).symm, next_named_eq ▸ agrees⟩
  | broke | continued =>
    obtain ⟨targets, isLoop, starts⟩ := leaves
    exact ⟨targets, isLoop, slots, rfl, starts⟩
  | returned value => exact leaves

/-! ## Conditional statements -/

variable {span : Span} {condition : Expr} {positive negative : Stmt}
  {whenTrue whenFalse out : BlockId}

theorem executes_ifThen (named_eq : graph.scopes.named = slots)
    (decides : site.Decides slots (some condition) graph whenTrue out)
    (arm : site.Arm slots loop positive whenTrue out) (opens : site.Opens next out)
    (next_named_eq : next.scopes.named = slots) :
    site.Executes loop (.ifThen span condition positive) graph next := by
  intro store state agrees
  rw [named_eq] at agrees ⊢
  rw [execStmt]
  refine (decides store state agrees).bind ?_
  rintro ⟨holds, later⟩ machine starts
  refine .of_step rfl ?_
  cases holds with
  | true =>
    exact (arm later _ starts).imp fun _ _ leaves => ends_of_leaves opens next_named_eq leaves
  | false => exact .ok (ends_of_leaves opens next_named_eq starts)

theorem executes_ifElse (named_eq : graph.scopes.named = slots)
    (decides : site.Decides slots (some condition) graph whenTrue whenFalse)
    (positiveArm : site.Arm slots loop positive whenTrue out)
    (negativeArm : site.Arm slots loop negative whenFalse out) (opens : site.Opens next out)
    (next_named_eq : next.scopes.named = slots) :
    site.Executes loop (.ifElse span condition positive negative) graph next := by
  intro store state agrees
  rw [named_eq] at agrees ⊢
  rw [execStmt]
  refine (decides store state agrees).bind ?_
  rintro ⟨holds, later⟩ machine starts
  refine .of_step rfl ?_
  cases holds with
  | true =>
    exact (positiveArm later _ starts).imp fun _ _ leaves =>
      ends_of_leaves opens next_named_eq leaves
  | false =>
    exact (negativeArm later _ starts).imp fun _ _ leaves =>
      ends_of_leaves opens next_named_eq leaves

/-! ## Loops -/

/-- A loop is simulated if each of its rounds is and takes at least one step when the loop goes on.
The induction is on the fuel of the loop, which therefore bounds the steps of the machine from
below. -/
theorem simulates_repeatRounds {world : World} {limit : Nat}
    {round : State → Except Halt (Option Signal × State)} (holds : State → Machine → Prop)
    {goal : Signal × State → Machine → Prop}
    (running : ∀ state machine, holds state machine →
      ∃ active callers, machine = .running active callers state.trace)
    (rounds : ∀ fewer, fewer + 1 ≤ limit → ∀ state machine, holds state machine →
      ∀ rest : Option Signal × State → Except Halt (Signal × State),
        (∀ later machine, holds later machine →
          world.Simulates fewer machine (rest (none, later)) goal) →
        (∀ signal later machine, goal (signal, later) machine →
          ∀ count, world.Simulates count machine (rest (some signal, later)) goal) →
        world.Simulates (fewer + 1) machine (round state >>= rest) goal) :
    ∀ fuel ≤ limit, ∀ state machine, holds state machine →
      world.Simulates fuel machine (repeatRounds round fuel state) goal := by
  intro fuel
  induction fuel with
  | zero =>
    intro _ state machine start
    exact ⟨0, Nat.le_refl 0, running state machine start⟩
  | succ fewer ih =>
    intro enough state machine start
    refine rounds fewer enough state machine start _ ?_ ?_
    · intro later machine again
      exact ih (Nat.le_of_succ_le enough) later machine again
    · intro signal later machine ended count
      exact .ok ended

variable {body : Stmt} {testGraph : Graph} {testBlock bodyBlock : BlockId} {onContinue : BlockId}

theorem running_of_starts {id : BlockId} (starts : site.Starts slots id state machine) :
    ∃ active callers, machine = .running active callers state.trace := by
  obtain ⟨store, rfl, -⟩ := starts
  exact ⟨_, _, rfl⟩

/-- After the body of a loop the machine is where the loop continues, unless the loop ends. -/
theorem simulates_endsLoop {α : Type} (loop : Option LoopTargets)
    (rest : Option Signal → Except Halt α) {limit : Nat} {signal : Signal}
    {goal : α → Machine → Prop}
    (leaves : site.Leaves slots (some ⟨onContinue, out⟩) onContinue (signal, state) machine)
    (continues : site.Starts slots onContinue state machine →
      site.world.Simulates limit machine (rest none) goal)
    (ends : ∀ ended, site.Leaves slots loop out (ended, state) machine →
      site.world.Simulates limit machine (rest (some ended)) goal) :
    site.world.Simulates limit machine (rest signal.endsLoop?) goal := by
  cases signal with
  | normal => exact continues leaves
  | broke =>
    obtain ⟨_, ⟨⟩, starts⟩ := leaves
    exact ends .normal starts
  | continued =>
    obtain ⟨_, ⟨⟩, starts⟩ := leaves
    exact continues starts
  | returned value => exact ends (.returned value) leaves

theorem executes_doWhile (named_eq : graph.scopes.named = slots)
    (jumps : site.JumpsTo graph bodyBlock)
    (arm : site.Arm slots (some ⟨testBlock, out⟩) body bodyBlock testBlock)
    (opensTest : site.Opens testGraph testBlock)
    (decides : site.Decides slots (some condition) testGraph bodyBlock out)
    (opens : site.Opens next out) (next_named_eq : next.scopes.named = slots) :
    site.Executes loop (.doWhile span body condition) graph next := by
  intro store state agrees
  rw [named_eq] at agrees ⊢
  rw [execStmt]
  refine .of_step (jumps store state.trace) ?_
  refine (simulates_repeatRounds (site.Starts slots bodyBlock)
    (fun _ _ => running_of_starts) ?_ site.limit (Nat.le_refl _) state _ ⟨store, rfl, agrees⟩).imp
    fun _ _ leaves => ends_of_leaves opens next_named_eq leaves
  intro fewer enough state machine starts rest again ended
  simp only [bind_assoc]
  refine ((arm state machine starts).mono enough).bind ?_
  rintro ⟨signal, later⟩ machine leaves
  refine simulates_endsLoop loop (fun signal => afterBody _ signal later >>= rest) leaves ?_ ?_
  · rintro ⟨store, rfl, agrees⟩
    rw [← opensTest]
    simp only [afterBody, bind_assoc]
    refine ((decides store later agrees).mono enough).bind ?_
    rintro ⟨holds, last⟩ machine startsAgain
    refine .step rfl ?_
    cases holds with
    | true => exact again last _ startsAgain
    | false => exact ended .normal last _ startsAgain fewer
  · intro signal leavesLoop
    exact ended signal later machine leavesLoop _

/-- What a `for` statement does between its body and its test. -/
def Site.Advances (site : Site) (slots : Scopes Slot) (after : Option Expr)
    (onContinue testBlock : BlockId) : Prop :=
  ∀ state machine, site.Starts slots onContinue state machine →
    site.world.Simulates site.limit machine (execForAfter site.call after state)
      (site.Starts slots testBlock)

theorem advances_none (testBlock : BlockId) : site.Advances slots none testBlock testBlock :=
  fun _ _ starts => .ok starts

theorem advances_some {value : Expr} {slot : Slot} (opens : site.Opens graph onContinue)
    (evaluates : site.Evaluates slots value graph slot next) (jumps : site.JumpsTo next testBlock) :
    site.Advances slots (some value) onContinue testBlock := by
  rintro state _ ⟨store, rfl, agrees⟩
  rw [← opens]
  refine (simulates_evalEffect evaluates agrees).further ?_
  rintro later _ ⟨after, rfl, laterAgrees⟩
  exact .of_step (jumps after later.trace) (.ok ⟨after, rfl, laterAgrees⟩)

/-- The loop of a `for` statement, between the blocks where it starts and where it ends. -/
theorem simulates_forLoop (loop : Option LoopTargets) {test after : Option Expr}
    (opensTest : site.Opens testGraph testBlock)
    (decides : site.Decides slots test testGraph bodyBlock out)
    (arm : site.Arm slots (some ⟨onContinue, out⟩) body bodyBlock onContinue)
    (advances : site.Advances slots after onContinue testBlock)
    (starts : site.Starts slots testBlock state machine) :
    site.world.Simulates site.limit machine
      (repeatRounds (fun state => do
        let (holds, state) ← evalCondition site.call test state
        if holds then
          let (signal, state) ← execStmt site.call site.limit body state
          afterBody (fun state => do
            let state ← execForAfter site.call after state
            return (none, state)) signal.endsLoop? state
        else
          return (some .normal, state)) site.limit state)
      (site.Leaves slots loop out) := by
  refine simulates_repeatRounds (site.Starts slots testBlock) (fun _ _ => running_of_starts) ?_
    site.limit (Nat.le_refl _) state machine starts
  rintro fewer enough state _ ⟨store, rfl, agrees⟩ rest again ended
  have less : fewer ≤ site.limit := Nat.le_of_succ_le enough
  rw [← opensTest]
  simp only [bind_assoc]
  refine ((decides store state agrees).mono enough).bind ?_
  rintro ⟨holds, later⟩ machine starts
  refine .step rfl ?_
  cases holds with
  | true =>
    simp only [if_true, bind_assoc]
    refine ((arm later _ starts).mono less).bind ?_
    rintro ⟨signal, last⟩ machine leaves
    refine simulates_endsLoop loop (fun signal => afterBody _ signal last >>= rest) leaves ?_ ?_
    · intro continues
      simp only [afterBody, bind_assoc, pure_bind]
      exact ((advances last machine continues).mono less).bind again
    · intro signal leavesLoop
      exact ended signal last machine leavesLoop fewer
  | false => exact ended .normal later _ starts fewer

theorem executes_whileLoop (named_eq : graph.scopes.named = slots)
    (jumps : site.JumpsTo graph testBlock) (opensTest : site.Opens testGraph testBlock)
    (decides : site.Decides slots (some condition) testGraph bodyBlock out)
    (arm : site.Arm slots (some ⟨testBlock, out⟩) body bodyBlock testBlock)
    (opens : site.Opens next out) (next_named_eq : next.scopes.named = slots) :
    site.Executes loop (.whileLoop span condition body) graph next := by
  intro store state agrees
  rw [named_eq] at agrees ⊢
  have loops := simulates_forLoop loop opensTest decides arm (advances_none testBlock)
    ⟨store, rfl, agrees⟩
  -- A round of the loop is one of a `for` loop that does nothing between its body and its test.
  have goesOn (ended : Option Signal) (state : State) :
      afterBody (fun state => .ok (none, state)) ended state = .ok (ended, state) := by
    cases ended <;> rfl
  simp only [execForAfter, pure_eq_ok, ok_bind, goesOn] at loops
  rw [execStmt]
  refine .of_step (jumps store state.trace) (loops.imp ?_)
  exact fun _ _ leaves => ends_of_leaves opens next_named_eq leaves

/-! ## Scopes of statements -/

/-- A statement that runs in a scope of its own, which is closed however the statement ends. -/
theorem ends_leave {inside : Scopes Slot} (enclosing_eq : inside.enclosing = slots.all)
    (opens : site.Opens next out) (next_named_eq : next.scopes.named = slots) {signal : Signal}
    (leaves : site.Leaves inside loop out (signal, state) machine) :
    site.Ends (· = slots) loop next (signal, state.leave) machine := by
  cases signal with
  | normal =>
    obtain ⟨store, rfl, agrees⟩ := leaves
    refine ⟨store, ?_, next_named_eq ▸ agrees_leave agrees enclosing_eq⟩
    rw [opens, trace_leave]
  | broke | continued =>
    obtain ⟨targets, isLoop, store, rfl, agrees⟩ := leaves
    exact ⟨targets, isLoop, slots, rfl, store, by rw [trace_leave], agrees_leave agrees enclosing_eq⟩
  | returned value =>
    show site.Returns value state.leave.trace machine
    rw [trace_leave]
    exact leaves

theorem executes_block {statements : List Stmt} {inside : Graph} {outer : Scopes Slot}
    (executes : site.ExecutesAll loop statements (graph.inScopes graph.scopes.enter) inside)
    (enclosing_eq : inside.scopes.named.enclosing = graph.scopes.named.all)
    (named_eq : outer.named = graph.scopes.named) :
    site.Executes loop (.block span statements) graph (inside.inScopes outer) := by
  intro store state agrees
  rw [execStmt]
  refine (executes store state.enter agrees.enter).bind ?_
  rintro ⟨signal, later⟩ machine ends
  refine .ok ?_
  cases signal with
  | normal =>
    obtain ⟨after, rfl, laterAgrees⟩ := ends
    refine ⟨after, by rw [trace_leave]; rfl, ?_⟩
    rw [inScopes_scopes, named_eq]
    exact agrees_leave laterAgrees enclosing_eq
  | broke | continued =>
    obtain ⟨targets, isLoop, within, within_eq, after, rfl, laterAgrees⟩ := ends
    exact ⟨targets, isLoop, _, rfl, after, by rw [trace_leave], agrees_leave laterAgrees within_eq⟩
  | returned value =>
    show site.Returns value later.leave.trace machine
    rw [trace_leave]
    exact ends

theorem executes_forLoop {initializer : Option ForInitializer} {test after : Option Expr}
    {started : Graph} (named_eq : graph.scopes.named = slots)
    (initializes : ∀ store state, Agrees slots.enter state.scopes store →
      site.world.Simulates site.limit (site.atEnd graph store state.trace)
        (execForInitializer site.call initializer state)
        (site.Continues started.scopes.named started))
    (enclosing_eq : started.scopes.named.enclosing = slots.all)
    (jumps : site.JumpsTo started testBlock) (opensTest : site.Opens testGraph testBlock)
    (decides : site.Decides started.scopes.named test testGraph bodyBlock out)
    (arm : site.Arm started.scopes.named (some ⟨onContinue, out⟩) body bodyBlock onContinue)
    (advances : site.Advances started.scopes.named after onContinue testBlock)
    (opens : site.Opens next out) (next_named_eq : next.scopes.named = slots) :
    site.Executes loop (.forLoop span initializer test after body) graph next := by
  intro store state agrees
  rw [named_eq] at agrees ⊢
  rw [execStmt]
  refine (initializes store state.enter agrees.enter).bind ?_
  rintro begun _ ⟨after, rfl, begunAgrees⟩
  refine .of_step (jumps after begun.trace) ?_
  refine (simulates_forLoop loop opensTest decides arm advances ⟨after, rfl, begunAgrees⟩).bind ?_
  rintro ⟨signal, later⟩ machine leaves
  exact .ok (ends_leave enclosing_eq opens next_named_eq leaves)

end SmallC
