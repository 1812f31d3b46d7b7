import Mathlib
import SmallC.Interner

/-!
# Numbers that identify texts

An interner is asked to insert texts, for the number of a text, and for the text of a number, in any
order.  It keeps its texts and their numbers apart, and every call leaves the two in step: the number
of a text is its place among the texts.  The answers to a run of calls therefore pair texts and
numbers one to one, and a pair that was answered once is never changed.
-/

namespace SmallC.Interner

variable {interner : Interner} {text : String} {event : Event}

/-! ## The two parts of an interner -/

/-- The texts and the numbers of an interner are in step: no text is kept twice, and the number of a
text is its place, of which 32 bits are kept. -/
structure Consistent (interner : Interner) : Prop where
  texts_nodup : interner.texts.Nodup
  indexOf?_eq : ∀ text, interner.indexOf? text = (interner.texts.idxOf? text).map UInt32.ofNat

theorem consistent_empty : empty.Consistent :=
  ⟨List.nodup_nil, fun _ => rfl⟩

namespace Consistent

section

variable (consistent : interner.Consistent)
include consistent

theorem indexOf?_eq_none_iff : interner.indexOf? text = none ↔ text ∉ interner.texts := by
  rw [consistent.indexOf?_eq, Option.map_eq_none_iff, List.idxOf?_eq_none_iff]

/-- As long as numbers do not run out, the number of a text and the text of a number are inverse to
each other. -/
theorem indexOf?_eq_some_iff (room : interner.texts.length ≤ 2 ^ 32) {number : UInt32} :
    interner.indexOf? text = some number ↔ interner.get? number = some text := by
  rw [consistent.indexOf?_eq, Option.map_eq_some_iff, get?]
  constructor
  · rintro ⟨place, place_eq, rfl⟩
    obtain ⟨below, text_eq, -⟩ := List.idxOf?_eq_some_iff.mp place_eq
    have number_eq : (UInt32.ofNat place).toNat = place :=
      UInt32.toNat_ofNat_of_lt' (Nat.lt_of_lt_of_le below room)
    rw [number_eq, List.getElem?_eq_getElem below, text_eq]
  · intro kept
    obtain ⟨below, text_eq⟩ := List.getElem?_eq_some_iff.mp kept
    refine ⟨number.toNat, List.idxOf?_eq_some_iff.mpr ⟨below, text_eq, ?_⟩, UInt32.ofNat_toNat⟩
    intro earlier earlier_lt same
    -- an earlier place of the same text would be a second one
    have := consistent.texts_nodup.getElem_inj_iff.mp (same.trans text_eq.symm)
    omega

theorem texts_insert (text : String) :
    (interner.insert text).2.texts =
      if text ∈ interner.texts then interner.texts else interner.texts ++ [text] := by
  by_cases known : text ∈ interner.texts
  · obtain ⟨number, found⟩ := Option.ne_none_iff_exists'.mp
      (mt consistent.indexOf?_eq_none_iff.mp (not_not_intro known))
    rw [insert_of_some found, if_pos known]
  · rw [insert_of_none (consistent.indexOf?_eq_none_iff.mpr known), if_neg known]

/-- Inserting a text keeps texts and numbers in step. -/
theorem insert (text : String) : (interner.insert text).2.Consistent := by
  cases found : interner.indexOf? text with
  | some number => rwa [insert_of_some found]
  | none =>
    have fresh := consistent.indexOf?_eq_none_iff.mp found
    constructor
    · rw [consistent.texts_insert, if_neg fresh]
      exact List.nodup_append.mpr ⟨consistent.texts_nodup, List.nodup_singleton text, by grind⟩
    · intro other
      rw [indexOf?_insert, consistent.texts_insert, if_neg fresh, List.idxOf?, List.findIdx?_append,
        ← List.idxOf?, consistent.indexOf?_eq, insert_of_none found]
      by_cases same : other = text
      · have missing : interner.texts.idxOf? text = none := List.idxOf?_eq_none_iff.mpr fresh
        simp [same, missing]
      · have different : (text == other) = false := beq_false_of_ne (Ne.symm same)
        simp [same, different]

end

end Consistent

/-! ## Calls and their answers -/

/-- A call of an interner. -/
inductive Call where
  | insert (text : String)
  | indexOf (text : String)
  | get (number : UInt32)
  deriving DecidableEq, Repr

/-- A call of an interner with its answer. -/
inductive Event where
  | insert (text : String) (number : UInt32)
  | indexOf (text : String) (found : Option UInt32)
  | get (number : UInt32) (found : Option String)
  deriving DecidableEq, Repr

/-- The call that was answered. -/
def Event.call : Event → Call
  | insert text _ => .insert text
  | indexOf text _ => .indexOf text
  | get number _ => .get number

/-- What a call answers, and the interner after it. -/
def answer (interner : Interner) : Call → Event × Interner
  | .insert text => (.insert text (interner.insert text).1, (interner.insert text).2)
  | .indexOf text => (.indexOf text (interner.indexOf? text), interner)
  | .get number => (.get number (interner.get? number), interner)

/-- The answers to calls that are made one after another, and the interner after all of them. -/
def run : Interner → List Call → List Event × Interner
  | interner, [] => ([], interner)
  | interner, call :: calls =>
    let (event, after) := interner.answer call
    let (events, last) := after.run calls
    (event :: events, last)

theorem run_cons (interner : Interner) (call : Call) (calls : List Call) :
    interner.run (call :: calls) =
      ((interner.answer call).1 :: ((interner.answer call).2.run calls).1,
        ((interner.answer call).2.run calls).2) :=
  rfl

theorem call_answer (interner : Interner) (call : Call) : (interner.answer call).1.call = call := by
  cases call <;> rfl

/-- Every call is answered, in order. -/
theorem map_call_run (interner : Interner) (calls : List Call) :
    (interner.run calls).1.map Event.call = calls := by
  induction calls generalizing interner with
  | nil => rfl
  | cons call calls ih => rw [run_cons, List.map_cons, call_answer, ih]

/-- The answers before one of them are those to the first calls, and it is the answer of the
interner after these. -/
theorem exists_run_of_append {calls : List Call} {before later : List Event}
    (run_eq : (interner.run calls).1 = before ++ event :: later) :
    ∃ first, (interner.run first).1 = before ∧
      ((interner.run first).2.answer event.call).1 = event := by
  induction before generalizing interner calls with
  | nil =>
    cases calls with
    | nil => cases run_eq
    | cons call calls =>
      rw [run_cons] at run_eq
      obtain ⟨rfl, -⟩ := List.cons.inj run_eq
      exact ⟨[], rfl, by rw [call_answer]; rfl⟩
  | cons previous before ih =>
    cases calls with
    | nil => cases run_eq
    | cons call calls =>
      rw [run_cons] at run_eq
      obtain ⟨rfl, rest_eq⟩ := List.cons.inj run_eq
      obtain ⟨first, before_eq, event_eq⟩ := ih rest_eq
      exact ⟨call :: first, by rw [run_cons, before_eq], event_eq⟩

/-! ## The order of first insertions -/

/-- The text that a call inserts. -/
def Call.inserted? : Call → Option String
  | .insert text => some text
  | _ => none

/-- The distinct texts that calls insert, in the order in which they are first inserted. -/
def firstInsertions (calls : List Call) : List String :=
  (calls.filterMap Call.inserted?).eraseDups

theorem firstInsertions_append_insert (calls : List Call) (text : String) :
    firstInsertions (calls ++ [Call.insert text]) =
      if text ∈ firstInsertions calls then firstInsertions calls
      else firstInsertions calls ++ [text] := by
  have inserted_eq : [Call.insert text].filterMap Call.inserted? = [text] := rfl
  simp only [firstInsertions, List.filterMap_append, inserted_eq, List.eraseDups_append,
    List.mem_eraseDups]
  generalize calls.filterMap Call.inserted? = texts
  by_cases known : text ∈ texts
  · simp [List.removeAll, known]
  · simp [List.removeAll, known, List.eraseDups_cons]

theorem firstInsertions_append_of_none {call : Call} (calls : List Call)
    (nothing : call.inserted? = none) : firstInsertions (calls ++ [call]) = firstInsertions calls := by
  simp [firstInsertions, nothing]

theorem length_firstInsertions_le (calls others : List Call) :
    (firstInsertions calls).length ≤ (firstInsertions (calls ++ others)).length := by
  rw [firstInsertions, firstInsertions, List.filterMap_append, List.eraseDups_append,
    List.length_append]
  exact Nat.le_add_right _ _

/-! ## What an interner has recorded -/

/-- An interner holds what answered calls have inserted: its texts are the inserted ones, and their
numbers are those that were answered. -/
structure Records (events : List Event) (interner : Interner) : Prop where
  consistent : interner.Consistent
  texts_eq : interner.texts = firstInsertions (events.map Event.call)
  mem_iff : ∀ text number, .insert text number ∈ events ↔ interner.indexOf? text = some number

theorem records_empty : Records [] empty :=
  ⟨consistent_empty, rfl, fun _ _ => by simp [empty, indexOf?]⟩

namespace Records

variable {events : List Event}

section

variable (records : Records events interner)
include records

/-- A call that inserts nothing is recorded without a change. -/
theorem append_of_none (nothing : event.call.inserted? = none) :
    Records (events ++ [event]) interner where
  consistent := records.consistent
  texts_eq := by
    rw [List.map_append, List.map_singleton, firstInsertions_append_of_none _ nothing,
      records.texts_eq]
  mem_iff text number := by
    have other : Event.insert text number ≠ event := by
      rintro rfl
      cases nothing
    rw [← records.mem_iff, List.mem_append, List.mem_singleton, or_iff_left other]

theorem append_insert (text : String) :
    Records (events ++ [Event.insert text (interner.insert text).1]) (interner.insert text).2 where
  consistent := records.consistent.insert text
  texts_eq := by
    rw [records.consistent.texts_insert, records.texts_eq, List.map_append, List.map_singleton,
      Event.call, firstInsertions_append_insert]
  mem_iff other number := by
    rw [indexOf?_insert, List.mem_append, List.mem_singleton, records.mem_iff]
    by_cases same : other = text
    · subst same
      rw [if_pos rfl, Option.some.injEq, Event.insert.injEq, eq_self, true_and]
      constructor
      · rintro (known | rfl)
        · rw [insert_of_some known]
        · rfl
      · exact fun answered => .inr answered.symm
    · rw [if_neg same, Event.insert.injEq]
      exact or_iff_left fun inserted => same inserted.1

/-- Every call is recorded. -/
theorem append_answer (call : Call) :
    Records (events ++ [(interner.answer call).1]) (interner.answer call).2 := by
  cases call with
  | insert text => exact records.append_insert text
  | indexOf text => exact records.append_of_none rfl
  | get number => exact records.append_of_none rfl

theorem append_run (calls : List Call) :
    Records (events ++ (interner.run calls).1) (interner.run calls).2 := by
  induction calls generalizing events interner with
  | nil => exact (List.append_nil events).symm ▸ records
  | cons call calls ih => simpa [run_cons] using ih (records.append_answer call)

section

variable (room : (firstInsertions (events.map Event.call)).length ≤ 2 ^ 32)
include room

/-- As long as numbers do not run out, the text of a number is the one that it was answered for. -/
theorem get?_eq_some_iff {number : UInt32} :
    interner.get? number = some text ↔ .insert text number ∈ events := by
  rw [records.mem_iff, records.consistent.indexOf?_eq_some_iff (records.texts_eq ▸ room)]

/-- As long as numbers do not run out, equal numbers were answered for equal texts only. -/
theorem number_eq_iff {first second : String} {m n : UInt32} (first_mem : .insert first m ∈ events)
    (second_mem : .insert second n ∈ events) : m = n ↔ first = second := by
  constructor
  · rintro rfl
    have first_kept := (records.get?_eq_some_iff room).mpr first_mem
    have second_kept := (records.get?_eq_some_iff room).mpr second_mem
    exact Option.some.inj (first_kept.symm.trans second_kept)
  · rintro rfl
    rw [records.mem_iff] at first_mem second_mem
    exact Option.some.inj (first_mem.symm.trans second_mem)

end

end

end Records

theorem records_run (calls : List Call) : Records (empty.run calls).1 (empty.run calls).2 :=
  records_empty.append_run calls

/-- Each answer is that of an interner which holds what the answers before it have inserted. -/
theorem exists_records_of_append {calls : List Call} {before later : List Event}
    (run_eq : (empty.run calls).1 = before ++ event :: later) :
    ∃ middle, Records before middle ∧ (middle.answer event.call).1 = event := by
  obtain ⟨first, rfl, answered⟩ := exists_run_of_append run_eq
  exact ⟨(empty.run first).2, records_run first, answered⟩

/-! ## Numbers and texts -/

/-- Answers that number texts: one number for each text, one text for each number, and for good. -/
structure Numbering (events : List Event) : Prop where
  /-- Two insertions answer the same number exactly when they insert the same text. -/
  number_eq_iff : ∀ first second m n, .insert first m ∈ events → .insert second n ∈ events →
    (m = n ↔ first = second)
  /-- The text of a number is the one that it was answered for, however many calls ago.  Numbers that
  were not answered have no text. -/
  text_iff : ∀ before number found later, events = before ++ .get number found :: later →
    ∀ text, found = some text ↔ .insert text number ∈ before
  /-- The number of a text is the one that its insertion answered.  Texts that were not inserted have
  no number. -/
  number_iff : ∀ before text found later, events = before ++ .indexOf text found :: later →
    ∀ number, found = some number ↔ .insert text number ∈ before
  /-- The numbers in use are `0, 1, 2, …`, in the order in which texts are first inserted. -/
  in_order : ∀ text number, .insert text number ∈ events ↔
    (firstInsertions (events.map Event.call))[number.toNat]? = some text

/-- Whatever calls a new interner answers, it numbers the texts that they insert, as long as there
are no more texts than numbers. -/
theorem numbers_identify_texts (calls : List Call)
    (room : (firstInsertions calls).length ≤ 2 ^ 32) : Numbering (empty.run calls).1 := by
  have records := records_run calls
  rw [← map_call_run empty calls] at room
  constructor
  case number_eq_iff =>
    intro first second m n first_mem second_mem
    exact records.number_eq_iff room first_mem second_mem
  case text_iff =>
    intro before number found later run_eq text
    obtain ⟨middle, recorded, answered⟩ := exists_records_of_append run_eq
    obtain rfl := (Event.get.inj answered).2
    rw [run_eq, List.map_append] at room
    exact recorded.get?_eq_some_iff (Nat.le_trans (length_firstInsertions_le _ _) room)
  case number_iff =>
    intro before text found later run_eq number
    obtain ⟨middle, recorded, answered⟩ := exists_records_of_append run_eq
    obtain rfl := (Event.indexOf.inj answered).2
    exact (recorded.mem_iff text number).symm
  case in_order =>
    intro text number
    rw [← records.get?_eq_some_iff room, get?, records.texts_eq]

/-- A text is inserted twice with another one between, and numbers are asked for before and after they
are in use. -/
theorem numbers_identify_texts_repeated :
    (firstInsertions [.get 0, .insert "b", .insert "a", .indexOf "", .insert "b", .insert "", .get 0,
      .indexOf "a", .get 3]).length ≤ 2 ^ 32 ∧
    (empty.run [.get 0, .insert "b", .insert "a", .indexOf "", .insert "b", .insert "", .get 0,
      .indexOf "a", .get 3]).1 =
      [.get 0 none, .insert "b" 0, .insert "a" 1, .indexOf "" none, .insert "b" 0, .insert "" 2,
        .get 0 (some "b"), .indexOf "a" (some 1), .get 3 none] ∧
    Numbering (empty.run [.get 0, .insert "b", .insert "a", .indexOf "", .insert "b", .insert "",
      .get 0, .indexOf "a", .get 3]).1 :=
  ⟨by decide, by decide, numbers_identify_texts _ (by decide)⟩

end SmallC.Interner
