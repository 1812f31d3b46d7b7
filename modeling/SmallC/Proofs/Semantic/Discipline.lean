import SmallC.Proofs.Scope.Binding
import SmallC.Semantic.Error

/-!
# The discipline of variable use

Which warnings the variables of a function deserve, said about its walk: a variable is warned of at
its first read if nothing was written to it before, and where its scope closes if it is never read.
The warnings of a walk are those of its places in order, so that the unused variables of a scope
follow each other, sorted by name.  There is only one such list.
-/

namespace SmallC

/-- Whether an event reads a variable. -/
def ScopeEvent.isRead : ScopeEvent → Bool
  | .read _ => true
  | _ => false

/-- Whether an event writes a variable. -/
def ScopeEvent.isWrite : ScopeEvent → Bool
  | .write _ => true
  | _ => false

/-- The name of the variable that a warning is about. -/
def WarningCause.variable : WarningCause → String
  | .uninitializedRead name => name
  | .unusedVariable name => name

namespace Walk

/-- A place at which the variable of a declaration is read. -/
def ReadAt (walk : Walk) (declaration place : Nat) : Prop :=
  walk[place]?.any ScopeEvent.isRead = true ∧ walk.Refers place declaration

/-- A place at which the variable of a declaration is written. -/
def WrittenAt (walk : Walk) (declaration place : Nat) : Prop :=
  walk[place]?.any ScopeEvent.isWrite = true ∧ walk.Refers place declaration

/-- The place at which the variable of a declaration is read first, and the name that reads it. -/
def FirstReadAt (walk : Walk) (declaration place : Nat) (use : Ident) : Prop :=
  walk[place]? = some (.read use) ∧ walk.Refers place declaration ∧
    ∀ earlier < place, ¬ walk.ReadAt declaration earlier

/-- The warnings that a declaration gets, and where.  Parameters get none. -/
inductive Gets (walk : Walk) (declaration place : Nat) : Warning → Prop where
  /-- A variable is read first at a place before which nothing was written to it. -/
  | uninitialized {name use : Ident} :
      walk[declaration]? = some (.declare name) → walk.FirstReadAt declaration place use →
      (∀ earlier < place, ¬ walk.WrittenAt declaration earlier) →
      Gets walk declaration place ⟨.uninitializedRead use.name, use.span⟩
  /-- A scope closes with a variable that is never read. -/
  | unused {name : Ident} :
      walk[declaration]? = some (.declare name) → walk.ClosedAt declaration place →
      (∀ other, ¬ walk.ReadAt declaration other) →
      Gets walk declaration place ⟨.unusedVariable name.name, name.span⟩

/-- Warnings that are sorted by the names of their variables; no name stands twice. -/
def ByName (piece : List (Nat × Warning)) : Prop :=
  piece.Pairwise fun first second => first.2.cause.variable < second.2.cause.variable

/-- A list of warnings reports a walk: it goes through the places of the walk in order, and at each
place through the warnings that declarations get there, sorted by name. -/
def Reports (walk : Walk) (report : List Warning) : Prop :=
  ∃ pieces : List (List (Nat × Warning)),
    pieces.length = walk.length ∧ report = pieces.flatten.map Prod.snd ∧
      ∀ place piece, pieces[place]? = some piece →
        (∀ declaration warning,
          (declaration, warning) ∈ piece ↔ walk.Gets declaration place warning) ∧
        ByName piece

/-! ## One more event -/

variable {walk done : Walk} {event : ScopeEvent} {declaration place : Nat} {warning : Warning}

theorem getElem?_concat_eq_some_iff {other : ScopeEvent} :
    (done ++ [event])[place]? = some other ↔
      done[place]? = some other ∨ place = done.length ∧ event = other := by
  rcases Nat.lt_trichotomy place done.length with early | rfl | late
  · rw [List.getElem?_append_left early]
    simp [early.ne]
  · simp
  · rw [List.getElem?_eq_none (by simpa using late), List.getElem?_eq_none late.le]
    simp [late.ne']

theorem refers_concat_iff :
    Refers (done ++ [event]) place declaration ↔
      Refers done place declaration ∨
        place = done.length ∧ event.binding? done.reverse = some declaration := by
  constructor
  · intro refers
    have early := refers.lt_length
    rw [List.length_append, List.length_singleton] at early
    rcases Nat.lt_or_eq_of_le (Nat.le_of_lt_succ early) with before | rfl
    · exact .inl ((refers_append_iff before).mp refers)
    · exact .inr ⟨rfl, refers_length_iff.mp refers⟩
  · rintro (refers | ⟨rfl, bound⟩)
    · exact (refers_append_iff refers.lt_length).mpr refers
    · exact refers_length_iff.mpr bound

/-- Uses of a kind after one more event: those before it, and the event itself. -/
theorem used_concat_iff (kind : ScopeEvent → Bool) :
    (done ++ [event])[place]?.any kind = true ∧ Refers (done ++ [event]) place declaration ↔
      (done[place]?.any kind = true ∧ Refers done place declaration) ∨
        place = done.length ∧ kind event = true ∧
          event.binding? done.reverse = some declaration := by
  rw [refers_concat_iff]
  constructor
  · rintro ⟨isKind, refers | ⟨rfl, bound⟩⟩
    · rw [List.getElem?_append_left refers.lt_length] at isKind
      exact .inl ⟨isKind, refers⟩
    · rw [List.getElem?_concat_length] at isKind
      exact .inr ⟨rfl, isKind, bound⟩
  · rintro (⟨isKind, refers⟩ | ⟨rfl, isKind, bound⟩)
    · rw [List.getElem?_append_left refers.lt_length]
      exact ⟨isKind, .inl refers⟩
    · rw [List.getElem?_concat_length]
      exact ⟨isKind, .inr ⟨rfl, bound⟩⟩

theorem readAt_concat_iff :
    ReadAt (done ++ [event]) declaration place ↔
      ReadAt done declaration place ∨
        place = done.length ∧ event.isRead = true ∧
          event.binding? done.reverse = some declaration :=
  used_concat_iff ScopeEvent.isRead

theorem writtenAt_concat_iff :
    WrittenAt (done ++ [event]) declaration place ↔
      WrittenAt done declaration place ∨
        place = done.length ∧ event.isWrite = true ∧
          event.binding? done.reverse = some declaration :=
  used_concat_iff ScopeEvent.isWrite

theorem ReadAt.lt_length (reads : ReadAt walk declaration place) : place < walk.length :=
  reads.2.lt_length

theorem WrittenAt.lt_length (writes : WrittenAt walk declaration place) : place < walk.length :=
  writes.2.lt_length

theorem readAt_concat_iff_of_lt (early : place < done.length) :
    ReadAt (done ++ [event]) declaration place ↔ ReadAt done declaration place := by
  rw [readAt_concat_iff]
  simp [early.ne]

theorem writtenAt_concat_iff_of_lt (early : place < done.length) :
    WrittenAt (done ++ [event]) declaration place ↔ WrittenAt done declaration place := by
  rw [writtenAt_concat_iff]
  simp [early.ne]

theorem firstReadAt_concat_iff {use : Ident} (early : place < done.length) :
    FirstReadAt (done ++ [event]) declaration place use ↔
      FirstReadAt done declaration place use := by
  unfold FirstReadAt
  rw [List.getElem?_append_left early, refers_append_iff early]
  refine and_congr_right fun _ => and_congr_right fun _ => ?_
  refine forall_congr' fun earlier => forall_congr' fun order => not_congr ?_
  exact readAt_concat_iff_of_lt (order.trans early)

/-- A declaration whose scope is closed is read no more. -/
theorem not_readAt_concat (closes : ClosedAt done declaration place)
    (unread : ∀ other, ¬ ReadAt done declaration other) (other : Nat) :
    ¬ ReadAt (done ++ [event]) declaration other := by
  rw [readAt_concat_iff]
  rintro (reads | ⟨rfl, -, bound⟩)
  · exact unread other reads
  · have closesLater : ClosedAt (done ++ [event]) declaration place :=
      (closedAt_append_iff closes.lt_length).mpr closes
    have early := closesLater.refers_lt (refers_length_iff.mpr bound)
    exact Nat.lt_asymm early closes.lt_length

/-- What a declaration gets at a place does not depend on what comes later. -/
theorem gets_concat_iff (early : place < done.length) :
    Gets (done ++ [event]) declaration place warning ↔ Gets done declaration place warning := by
  constructor
  · rintro (⟨declared, first, unwritten⟩ | ⟨declared, closes, unread⟩)
    · rw [firstReadAt_concat_iff early] at first
      rw [List.getElem?_append_left (first.2.1.declaration_lt.trans early)] at declared
      refine .uninitialized declared first fun earlier order writes => unwritten earlier order ?_
      exact (writtenAt_concat_iff_of_lt (order.trans early)).mpr writes
    · rw [closedAt_append_iff early] at closes
      rw [List.getElem?_append_left (closes.declaration_lt.trans early)] at declared
      refine .unused declared closes fun other reads => unread other ?_
      exact readAt_concat_iff.mpr (.inl reads)
  · rintro (⟨declared, first, unwritten⟩ | ⟨declared, closes, unread⟩)
    · refine .uninitialized (getElem?_concat_eq_some_iff.mpr (.inl declared))
        ((firstReadAt_concat_iff early).mpr first) fun earlier order writes => ?_
      exact unwritten earlier order ((writtenAt_concat_iff_of_lt (order.trans early)).mp writes)
    · exact .unused (getElem?_concat_eq_some_iff.mpr (.inl declared))
        ((closedAt_append_iff early).mpr closes) (not_readAt_concat closes unread)

/-- A warning is given where something is read or a scope closes. -/
theorem Gets.isRead_or_leave (gets : Gets (done ++ [event]) declaration done.length warning) :
    event.isRead = true ∨ event = .leave := by
  rcases gets with ⟨-, first, -⟩ | ⟨-, closes, -⟩
  · have event_eq := first.1
    rw [List.getElem?_concat_length, Option.some.injEq] at event_eq
    exact .inl (event_eq ▸ rfl)
  · exact .inr (closedAt_length_iff.mp closes).1

/-! ## Reports -/

theorem Reports.nil : Reports [] [] :=
  ⟨[], rfl, rfl, fun _ _ found => by cases found⟩

variable {piece : List (Nat × Warning)}

/-- A report of one more event: what was reported before, and what declarations get at the event. -/
theorem Reports.concat {report : List Warning} (reports : Reports done report)
    (exact_piece : ∀ declaration warning,
      (declaration, warning) ∈ piece ↔ Gets (done ++ [event]) declaration done.length warning)
    (sorted : ByName piece) : Reports (done ++ [event]) (report ++ piece.map Prod.snd) := by
  rcases reports with ⟨pieces, length_eq, rfl, each⟩
  refine ⟨pieces ++ [piece], by simp [length_eq], by simp, ?_⟩
  intro place other found
  rcases Nat.lt_or_ge place pieces.length with early | late
  · rw [List.getElem?_append_left early] at found
    rcases each place other found with ⟨members, sortedOther⟩
    refine ⟨fun declaration warning => ?_, sortedOther⟩
    rw [members, gets_concat_iff (length_eq ▸ early)]
  · have place_eq : place = pieces.length := by
      have bound := (List.getElem?_eq_some_iff.mp found).1
      rw [List.length_append, List.length_singleton] at bound
      exact Nat.le_antisymm (Nat.le_of_lt_succ bound) late
    subst place_eq
    rw [List.getElem?_concat_length, Option.some.injEq] at found
    subst found
    rw [length_eq]
    exact ⟨exact_piece, sorted⟩

/-- An event that neither reads nor closes a scope adds nothing to a report. -/
theorem Reports.quiet {report : List Warning} (reports : Reports done report)
    (noRead : event.isRead = false) (noLeave : event ≠ .leave) :
    Reports (done ++ [event]) report := by
  have silent (declaration : Nat) (warning : Warning) : (declaration, warning) ∈ [] ↔
      Gets (done ++ [event]) declaration done.length warning := by
    refine ⟨fun member => (List.not_mem_nil member).elim, fun gets => ?_⟩
    rcases gets.isRead_or_leave with reads | leaves
    · rw [noRead] at reads
      cases reads
    · exact absurd leaves noLeave
  have reported := reports.concat silent List.Pairwise.nil
  rwa [List.map_nil, List.append_nil] at reported

theorem ByName.nodup (sorted : ByName piece) : piece.Nodup := by
  refine List.Pairwise.imp ?_ sorted
  rintro entry _ order rfl
  exact String.lt_irrefl _ order

/-- Pieces that are sorted by name and have the same entries are the same. -/
theorem ByName.eq_of_mem_iff {first second : List (Nat × Warning)} (firstSorted : ByName first)
    (secondSorted : ByName second) (same : ∀ entry, entry ∈ first ↔ entry ∈ second) :
    first = second := by
  refine List.Perm.eq_of_pairwise ?_ firstSorted secondSorted ?_
  · intro entry other _ _ order reverse
    exact absurd reverse (String.lt_asymm order)
  · exact (List.perm_ext_iff_of_nodup firstSorted.nodup secondSorted.nodup).mpr same

/-- There is one report of a walk. -/
theorem Reports.unique {first second : List Warning} (reports : Reports walk first)
    (reportsOther : Reports walk second) : first = second := by
  rcases reports with ⟨pieces, length_eq, rfl, each⟩
  rcases reportsOther with ⟨others, otherLength_eq, rfl, eachOther⟩
  have pieces_eq : pieces = others := by
    apply List.ext_getElem (length_eq.trans otherLength_eq.symm)
    intro place early earlyOther
    rcases each place _ (List.getElem?_eq_getElem early) with ⟨members, sorted⟩
    rcases eachOther place _ (List.getElem?_eq_getElem earlyOther) with ⟨otherMembers, otherSorted⟩
    apply sorted.eq_of_mem_iff otherSorted
    rintro ⟨declaration, warning⟩
    rw [members, otherMembers]
  rw [pieces_eq]

end Walk

end SmallC
