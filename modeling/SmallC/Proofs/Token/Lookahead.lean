import SmallC.Proofs.Token.Coverage

/-!
# Looking ahead

A cursor can be asked for the next item, and it can be asked to look at it first.  Tokens stay when
they are looked at, stretches that are no tokens do not.  However the two calls are mixed, the items
that they take off the text are those of the text in order: each call answers the first item that has
not been taken.
-/

namespace SmallC.Cursor

/-- A call of a cursor. -/
inductive Call where
  | peek
  | next
  deriving DecidableEq, Repr

/-- What a call answers, and the cursor after it. -/
def answer (cursor : Cursor) : Call → Option LexItem × Cursor
  | .peek => cursor.peek
  | .next => cursor.next

/-- The answers to calls that are made one after another, each with its call, and the cursor after
all of them. -/
def run : Cursor → List Call → List (Call × Option LexItem) × Cursor
  | cursor, [] => ([], cursor)
  | cursor, call :: calls =>
    let (found, after) := cursor.answer call
    let (answers, last) := after.run calls
    ((call, found) :: answers, last)

theorem run_cons (cursor : Cursor) (call : Call) (calls : List Call) :
    cursor.run (call :: calls) =
      ((call, (cursor.answer call).1) :: ((cursor.answer call).2.run calls).1,
        ((cursor.answer call).2.run calls).2) :=
  rfl

/-- The item that a call takes off the text: what is read, and a stretch that is no token also when
it is only looked at. -/
def taken? : Call × Option LexItem → Option LexItem
  | (.next, found) => found
  | (.peek, some (.error malformed)) => some (.error malformed)
  | (.peek, _) => none

/-- The items that a cursor has not given away: the tokens that it keeps, and those of the text in
front of it. -/
def pending (cursor : Cursor) : List LexItem :=
  cursor.ahead.map .ok ++ itemsFrom cursor.offset (pieces cursor.rest)

/-- Where no item is found, the text is at its end. -/
theorem itemsFrom_of_scanItem_none {offset next : Nat} {text rest : List Char}
    (scanned : scanItem offset text = (none, next, rest)) : itemsFrom next (pieces rest) = [] := by
  fun_induction scanItem offset text with
  | case1 =>
    cases scanned
    rw [pieces, itemsFrom]
  | case2 => cases scanned
  | case3 _ _ _ _ _ _ ih => exact ih scanned

/-- A call answers the first pending item and leaves the pending items without what it takes.  It
keeps a token only if none is kept. -/
theorem pending_answer (cursor : Cursor) (call : Call) :
    (cursor.answer call).1 = cursor.pending.head? ∧
      cursor.pending =
        (taken? (call, (cursor.answer call).1)).toList ++ (cursor.answer call).2.pending ∧
      (cursor.ahead.length ≤ 1 → (cursor.answer call).2.ahead.length ≤ 1) := by
  obtain ⟨offset, rest, ahead⟩ := cursor
  cases ahead with
  | cons token others =>
    cases call with
    | peek => exact ⟨rfl, rfl, id⟩
    | next => exact ⟨rfl, rfl, Nat.le_of_succ_le⟩
  | nil =>
    -- Nothing is kept, so both calls look for the next item in the text.
    have items_eq := itemsFrom_eq_of_scanItem offset rest
    have end_eq {next later} := @itemsFrom_of_scanItem_none offset next rest later
    rcases scanned : scanItem offset rest with ⟨found, next, later⟩
    rw [scanned] at items_eq
    match call, found with
    | .next, none | .next, some _ | .peek, none | .peek, some (.error _) | .peek, some (.ok _) =>
      simp_all [answer, Cursor.next, peek, pending, taken?]

variable {cursor : Cursor} {calls : List Call} {later : List (Call × Option LexItem)}

theorem length_ahead_run (few : cursor.ahead.length ≤ 1) (calls : List Call) :
    (cursor.run calls).2.ahead.length ≤ 1 := by
  induction calls generalizing cursor with
  | nil => exact few
  | cons call calls ih => exact ih ((cursor.pending_answer call).2.2 few)

/-- After some answers the others are those of a cursor from which the first ones have taken their
items. -/
theorem exists_run_of_append {before : List (Call × Option LexItem)}
    (run_eq : (cursor.run calls).1 = before ++ later) :
    ∃ middle others, (run middle others).1 = later ∧
      cursor.pending = before.filterMap taken? ++ middle.pending := by
  induction before generalizing cursor calls with
  | nil => exact ⟨cursor, calls, run_eq, rfl⟩
  | cons first before ih =>
    cases calls with
    | nil => cases run_eq
    | cons call calls =>
      rw [run_cons] at run_eq
      obtain ⟨rfl, later_eq⟩ := List.cons.inj run_eq
      obtain ⟨middle, others, last_eq, pending_eq⟩ := ih later_eq
      refine ⟨middle, others, last_eq, ?_⟩
      rw [(cursor.pending_answer call).2.1, pending_eq, List.filterMap_cons]
      cases taken? (call, (cursor.answer call).1) <;> rfl

/-- The first answer is the first pending item. -/
theorem eq_head_of_run {call : Call} {found : Option LexItem}
    (run_eq : (cursor.run calls).1 = (call, found) :: later) :
    found = cursor.pending.head? := by
  cases calls with
  | nil => cases run_eq
  | cons first calls =>
    rw [run_cons] at run_eq
    cases (List.cons.inj run_eq).1
    exact (cursor.pending_answer call).1

/-- While a token is only looked at, it stays the first pending item. -/
theorem eq_token_of_run {token : Token} {between : List (Call × Option LexItem)}
    {found : Option LexItem} (head_eq : cursor.pending.head? = some (.ok token))
    (run_eq : (cursor.run calls).1 = between ++ (.next, found) :: later)
    (looks : ∀ entry ∈ between, entry.1 = .peek) : found = some (.ok token) := by
  induction between generalizing cursor calls with
  | nil => rw [eq_head_of_run run_eq, head_eq]
  | cons first between ih =>
    rw [List.forall_mem_cons] at looks
    obtain ⟨middle, others, rest_eq, pending_eq⟩ :=
      exists_run_of_append (show (cursor.run calls).1 = [first] ++ _ from run_eq)
    have first_eq : first = (.peek, some (.ok token)) :=
      Prod.ext looks.1 ((eq_head_of_run run_eq).trans head_eq)
    rw [first_eq] at pending_eq
    rw [pending_eq] at head_eq
    exact ih head_eq rest_eq looks.2

/-- How the answers to calls follow the items of a text. -/
structure Follows (items : List LexItem) (answers : List (Call × Option LexItem)) : Prop where
  /-- Nothing is lost, repeated or moved. -/
  in_order : answers.filterMap taken? <+: items
  /-- No item is found exactly when all have been taken before. -/
  ended : ∀ before call found later, answers = before ++ (call, found) :: later →
    (found = none ↔ before.filterMap taken? = items)
  /-- A token that was looked at is the next one to be read, however often it was looked at. -/
  kept : ∀ before token between found later,
    answers = before ++ (.peek, some (.ok token)) :: (between ++ (.next, found) :: later) →
      (∀ entry ∈ between, entry.1 = .peek) → found = some (.ok token)

theorem follows_run (cursor : Cursor) (calls : List Call) :
    Follows cursor.pending (cursor.run calls).1 where
  in_order := by
    obtain ⟨middle, -, -, pending_eq⟩ :=
      exists_run_of_append (List.append_nil (cursor.run calls).1).symm
    exact ⟨middle.pending, pending_eq.symm⟩
  ended before call found later answers_eq := by
    obtain ⟨middle, others, run_eq, pending_eq⟩ := exists_run_of_append answers_eq
    rw [eq_head_of_run run_eq, List.head?_eq_none_iff, pending_eq, List.self_eq_append_right]
  kept before token between found later answers_eq looks := by
    obtain ⟨middle, others, run_eq, -⟩ := exists_run_of_append answers_eq
    exact eq_token_of_run (eq_head_of_run run_eq).symm
      (show (middle.run others).1 = ((.peek, some (.ok token)) :: between) ++ _ from run_eq)
      (List.forall_mem_cons.mpr ⟨rfl, looks⟩)

/-- Reading alone gives the items of a text one by one.  However reading and looking ahead are mixed,
the same items are taken in the same order, a token that is looked at is the next one to be read, and
never more than one token is kept. -/
theorem lookahead_keeps_items (text : List Char) (calls : List Call) :
    (ofText text).Reads (lexItems text) ∧ Follows (lexItems text) ((ofText text).run calls).1 ∧
      ((ofText text).run calls).2.ahead.length ≤ 1 :=
  ⟨reads_itemsFrom 0 text, follows_run (ofText text) calls,
    length_ahead_run (show (ofText text).ahead.length ≤ 1 from Nat.zero_le 1) calls⟩

/-- A stretch that is no token between two that are.  It is reported when it is looked at, and not
again; the tokens are looked at twice. -/
theorem lookahead_keeps_items_around_error :
    (((ofText "x /* y */ @ z".toList).run
      [.peek, .peek, .next, .peek, .peek, .peek, .next, .next]).1.map fun entry =>
        (entry.1, entry.2.map fun item => item.toOption.map Token.text)) =
      [(.peek, some (some "x")), (.peek, some (some "x")), (.next, some (some "x")),
        (.peek, some none), (.peek, some (some "z")), (.peek, some (some "z")),
        (.next, some (some "z")), (.next, none)] ∧
    Follows (lexItems "x /* y */ @ z".toList) ((ofText "x /* y */ @ z".toList).run
      [.peek, .peek, .next, .peek, .peek, .peek, .next, .next]).1 :=
  ⟨by cbv, (lookahead_keeps_items _ _).2.1⟩

end SmallC.Cursor
