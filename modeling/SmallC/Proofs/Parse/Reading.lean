import SmallC.Parse.Program
import SmallC.Proofs.Result

/-!
# Following a reader

What is proved about readers has three parts: what holds of a failure, of what was read together
with the items after it, and of the case that something optional is missing.  Readers that never
fail, readers whose failures do not matter and readers whose failures have a place are all followed
with the same two rules.
-/

namespace SmallC.Parse

variable {α β : Type} {bound : Nat} {fails : ParseFailure → Prop}

/-- Reading ends with a value that stands in a relation to the items left after it, or fails. -/
def Reading (fails : ParseFailure → Prop) (reads : α → List LexItem → Prop) :
    Except ParseFailure (Parsed α bound) → Prop :=
  Outcome fails fun parsed => reads parsed.value parsed.rest

/-- Reading something that may be missing. -/
def Offering (fails : ParseFailure → Prop) (lacks : Prop) (reads : α → List LexItem → Prop) :
    Except ParseFailure (Option (Parsed α bound)) → Prop :=
  Outcome fails fun found =>
    match found with
    | none => lacks
    | some parsed => reads parsed.value parsed.rest

variable {reads : α → List LexItem → Prop} {after : β → Prop} {lacks : Prop}

theorem Reading.bind {first : Except ParseFailure (Parsed α bound)}
    {next : Parsed α bound → Except ParseFailure β} (reading : Reading fails reads first)
    (rest : ∀ value items short, reads value items →
      Outcome fails after (next ⟨value, items, short⟩)) :
    Outcome fails after (first >>= next) :=
  Outcome.bind reading fun parsed read => rest parsed.value parsed.rest parsed.short read

theorem Offering.bind {first : Except ParseFailure (Option (Parsed α bound))}
    {next : Option (Parsed α bound) → Except ParseFailure β}
    (offering : Offering fails lacks reads first)
    (missing : lacks → Outcome fails after (next none))
    (present : ∀ value items short, reads value items →
      Outcome fails after (next (some ⟨value, items, short⟩))) :
    Outcome fails after (first >>= next) := by
  refine Outcome.bind offering fun found holds => ?_
  cases found with
  | none => exact missing holds
  | some parsed => exact present parsed.value parsed.rest parsed.short holds

end SmallC.Parse
