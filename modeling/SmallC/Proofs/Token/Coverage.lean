import SmallC.Proofs.Token.Places
import SmallC.Token.Cursor

/-!
# Reading a text to its end

Reading one item after another comes to the end of every text, whatever is wrong with it.  The items
do not overlap, and everything between them is white space and comments, so a text is its items and
what is ignored, and nothing else.
-/

namespace SmallC

/-! ## Ignored text -/

/-- Text that stands for nothing, where `after` is what follows it: white space, lines from a `#` or
two slashes on, and comments that are closed. -/
inductive Ignored (after : List Char) : List Char → Prop
  | nothing : Ignored after []
  | space {c : Char} {text : List Char} :
      c ∈ [' ', '\t', '\n', '\x0c', '\r'] → Ignored after text → Ignored after (c :: text)
  /-- A line is ignored up to its end, which is a newline or the end of everything. -/
  | line {opening body text : List Char} :
      opening = ['#'] ∨ opening = ['/', '/'] → '\n' ∉ body →
        (∀ c ∈ (text ++ after).head?, c = '\n') → Ignored after text →
          Ignored after (opening ++ body ++ text)
  /-- A comment ends where it is closed for the first time. -/
  | comment {body text : List Char} :
      ¬['*', '/'] <:+: body → Ignored after text →
        Ignored after (['/', '*'] ++ body ++ ['*', '/'] ++ text)

/-- The part of a text between two offsets is ignored. -/
def IgnoredBetween (text : List Char) (start stop : Nat) : Prop :=
  ∃ before inner after, text = before ++ inner ++ after ∧ Text.byteLength before = start ∧
    Text.byteLength (before ++ inner) = stop ∧ Ignored after inner

/-- All of a text from an offset on is ignored, but for the items. -/
def IgnoredAround (text : List Char) : Nat → List LexItem → Prop
  | start, [] => IgnoredBetween text start (Text.byteLength text)
  | start, item :: rest =>
    IgnoredBetween text start (LexItem.span item).start ∧
      IgnoredAround text (LexItem.span item).stop rest

/-- Items that make up a text together with what is ignored. -/
structure Covered (text : List Char) (items : List LexItem) : Prop where
  lies : ∀ item ∈ items, (LexItem.span item).LiesIn text
  nonempty : ∀ item ∈ items, (LexItem.span item).start < (LexItem.span item).stop
  increasing : (items.map LexItem.span).Pairwise fun first second =>
    first.start < second.start ∧ first.stop < second.stop
  disjoint : (items.map LexItem.span).Pairwise fun first second => first.stop ≤ second.start
  around : IgnoredAround text 0 items

/-! ## Blank pieces -/

namespace Piece

/-- The ways to cut off the first piece of a text, by its first character. -/
inductive Starts (c : Char) (rest : List Char) : Piece → Prop
  | nonAscii : Starts c rest ⟨.malformed (.nonAsciiCharacter c), [c], rest⟩
  | space : isSpace c = true → Starts c rest (run .blank isSpace (c :: rest))
  | hash : c = '#' → Starts c rest (run .blank (· != '\n') (c :: rest))
  | slash : c = '/' → Starts c rest (slash rest)
  | quote : c = '\'' → Starts c rest (charLiteral rest)
  | digit : c.isDigit = true → Starts c rest (number (c :: rest))
  | word : isWordStart c = true → Starts c rest (word (c :: rest))
  | mark : c ≠ '/' → Starts c rest (mark c rest)

theorem starts_cut (c : Char) (rest : List Char) : Starts c rest (cut c rest) := by
  unfold cut
  split_ifs with _ space hash slashes quote digit start
  · exact .nonAscii
  · exact .space space
  · exact .hash hash
  · exact .slash slashes
  · exact .quote quote
  · exact .digit digit
  · exact .word start
  · exact .mark slashes

theorem charLiteral_ne_blank (text : List Char) : (charLiteral text).sort ≠ .blank := by
  unfold charLiteral
  dsimp only
  split_ifs <;> nofun

theorem number_ne_blank (text : List Char) : (number text).sort ≠ .blank := by
  unfold number
  split
  · simp
  · split_ifs <;> simp

theorem mark_ne_blank (c : Char) (rest : List Char) : (mark c rest).sort ≠ .blank := by
  unfold mark
  split <;> nofun

variable {rest before : List Char} {item : LexItem}

/-- The text of a comment up to its end is closed for the first time there. -/
theorem exists_body_of_commentEnd? {text inner : List Char}
    (found : commentEnd? text = some (inner, rest)) :
    ∃ body, inner = body ++ ['*', '/'] ∧ ¬['*', '/'] <:+: body := by
  fun_induction commentEnd? text generalizing inner rest with
  | case1 => contradiction
  | case2 rest' =>
    cases found
    exact ⟨[], rfl, by simp⟩
  | case3 c rest' notClosed ih =>
    simp only [Option.map_eq_some_iff, Prod.exists, Prod.mk.injEq] at found
    obtain ⟨front, back, inner_found, rfl, rfl⟩ := found
    obtain ⟨body, rfl, unclosed⟩ := ih inner_found
    refine ⟨c :: body, rfl, ?_⟩
    rw [List.infix_cons_iff]
    rintro (⟨after, closes⟩ | inside)
    · obtain ⟨rfl, rfl⟩ := List.cons.inj closes
      exact notClosed _ rfl (append_of_commentEnd? inner_found).symm
    · exact unclosed inside

end Piece

namespace Ignored

variable {after text : List Char}

theorem spaces {front : List Char} (all : ∀ c ∈ front, Piece.isSpace c = true)
    (ignored : Ignored after text) : Ignored after (front ++ text) := by
  induction front with
  | nil => exact ignored
  | cons c others ih =>
    rw [List.forall_mem_cons] at all
    refine .space ?_ (ih all.2)
    simpa [Piece.isSpace, or_assoc] using all.1

/-- A line is ignored when it is read up to the next newline. -/
theorem run_line {opening : List Char} (rest : List Char)
    (opens : opening = ['#'] ∨ opening = ['/', '/'])
    (rest_eq : (Piece.run .blank (· != '\n') (opening ++ rest)).rest = text ++ after)
    (ignored : Ignored after text) :
    Ignored after ((Piece.run .blank (· != '\n') (opening ++ rest)).chars ++ text) := by
  have inLine : ∀ c ∈ opening, (c != '\n') = true := by
    rcases opens with rfl | rfl <;> simp
  simp only [Piece.run, List.takeWhile_append_of_pos inLine,
    List.dropWhile_append_of_pos inLine] at rest_eq ⊢
  refine .line opens ?_ ?_ ignored
  · intro newline
    simpa using List.mem_takeWhile_imp newline
  · intro c first
    rw [← rest_eq] at first
    have stopped := List.head?_dropWhile_not (· != '\n') rest
    rw [Option.mem_def.mp first] at stopped
    simpa using stopped

theorem slash (isBlank : (Piece.slash rest).sort = .blank)
    (rest_eq : (Piece.slash rest).rest = text ++ after) (ignored : Ignored after text) :
    Ignored after ((Piece.slash rest).chars ++ text) := by
  revert isBlank rest_eq
  unfold Piece.slash
  split
  case h_1 more =>
    intro _ rest_eq
    exact run_line more (.inr rfl) rest_eq ignored
  case h_2 more =>
    intro isBlank rest_eq
    unfold Piece.blockComment at *
    split at isBlank
    · rename_i inner rest' found
      obtain ⟨body, rfl, unclosed⟩ := Piece.exists_body_of_commentEnd? found
      simpa [found] using comment unclosed ignored
    · cases isBlank
  case h_3 =>
    intro isBlank
    exact absurd isBlank (Piece.mark_ne_blank '/' rest)

/-- A blank piece in front of ignored text is ignored with it. -/
theorem blank {c : Char} (isBlank : (Piece.cut c rest).sort = .blank)
    (rest_eq : (Piece.cut c rest).rest = text ++ after) (ignored : Ignored after text) :
    Ignored after ((Piece.cut c rest).chars ++ text) := by
  have starts := Piece.starts_cut c rest
  generalize Piece.cut c rest = piece at *
  cases starts with
  | nonAscii => cases isBlank
  | space _ => exact ignored.spaces fun c member => List.mem_takeWhile_imp member
  | hash isHash =>
    subst isHash
    exact run_line rest (.inl rfl) rest_eq ignored
  | slash isSlash => exact ignored.slash isBlank rest_eq
  | quote _ => exact absurd isBlank (Piece.charLiteral_ne_blank rest)
  | digit _ => exact absurd isBlank (Piece.number_ne_blank _)
  | word _ => cases isBlank
  | mark _ => exact absurd isBlank (Piece.mark_ne_blank c rest)

end Ignored

/-! ## Items among pieces -/

/-- A text comes apart at an offset in one way only. -/
theorem Text.append_inj_of_byteLength {after front back : List Char}
    (same : before ++ after = front ++ back) (length_eq : byteLength before = byteLength front) :
    before = front ∧ after = back := by
  have split := splitAt?_append before after
  rw [same, length_eq, splitAt?_append, Option.some.injEq, Prod.mk.injEq] at split
  exact ⟨split.1.symm, split.2.symm⟩

namespace Piece

variable {piece : Piece} {offset : Nat}

theorem item?_eq_none_iff : piece.item? offset = none ↔ piece.sort = .blank := by
  obtain ⟨sort, chars, rest⟩ := piece
  cases sort <;> simp [item?]

theorem span_of_item? (found : piece.item? offset = some item) :
    LexItem.span item = ⟨offset, offset + Text.byteLength piece.chars⟩ := by
  obtain ⟨sort, chars, rest⟩ := piece
  cases sort <;> cases found <;> rfl

end Piece

open Text

/-- Every item of a text was cut off where it stands. -/
theorem exists_cut_of_mem_itemsFrom (before rest : List Char)
    (found : item ∈ itemsFrom (byteLength before) (pieces rest)) :
    ∃ front c after, rest = front ++ c :: after ∧
      (Piece.cut c after).item? (byteLength (before ++ front)) = some item := by
  fun_induction pieces rest generalizing before with
  | case1 => cases found
  | case2 c rest piece =>
    rename_i ih
    have covers : piece.chars ++ piece.rest = c :: rest := (Piece.cut_covers c rest).1
    have later (found : item ∈ itemsFrom (byteLength before + byteLength piece.chars)
        (pieces piece.rest)) : ∃ front c' after, c :: rest = front ++ c' :: after ∧
          (Piece.cut c' after).item? (byteLength (before ++ front)) = some item := by
      rw [← byteLength_append] at found
      obtain ⟨front, c', after, rest_eq, item_eq⟩ := ih _ found
      refine ⟨piece.chars ++ front, c', after, ?_, ?_⟩
      · rw [← covers, rest_eq, List.append_assoc]
      · rwa [← List.append_assoc]
    rw [itemsFrom] at found
    cases first : piece.item? (byteLength before) with
    | none =>
      rw [first] at found
      exact later found
    | some cutItem =>
      rw [first] at found
      rcases List.mem_cons.mp found with rfl | found
      · exact ⟨[], c, rest, rfl, by rwa [List.append_nil]⟩
      · exact later found

theorem exists_cut_of_mem_lexItems {text : List Char} (found : item ∈ lexItems text) :
    ∃ before c after, text = before ++ c :: after ∧
      (Piece.cut c after).item? (byteLength before) = some item :=
  exists_cut_of_mem_itemsFrom [] text found

/-! ## What is between items -/

/-- Ignored text starts earlier where a blank piece stands before it. -/
theorem IgnoredBetween.blank {c : Char} {stop : Nat} (isBlank : (Piece.cut c rest).sort = .blank)
    (between : IgnoredBetween (before ++ c :: rest)
      (byteLength (before ++ (Piece.cut c rest).chars)) stop) :
    IgnoredBetween (before ++ c :: rest) (byteLength before) stop := by
  obtain ⟨front, inner, after, text_eq, front_eq, stop_eq, ignored⟩ := between
  have covers := (Piece.cut_covers c rest).1
  have same : front ++ (inner ++ after) =
      (before ++ (Piece.cut c rest).chars) ++ (Piece.cut c rest).rest := by
    rw [List.append_assoc before, covers, text_eq, List.append_assoc]
  obtain ⟨rfl, rest_eq⟩ := append_inj_of_byteLength same front_eq
  refine ⟨before, (Piece.cut c rest).chars ++ inner, after, ?_, rfl, ?_, ?_⟩
  · rw [text_eq, List.append_assoc before]
  · rw [← stop_eq, List.append_assoc]
  · exact ignored.blank isBlank rest_eq.symm

theorem IgnoredAround.blank {c : Char} {items : List LexItem}
    (isBlank : (Piece.cut c rest).sort = .blank)
    (around : IgnoredAround (before ++ c :: rest)
      (byteLength (before ++ (Piece.cut c rest).chars)) items) :
    IgnoredAround (before ++ c :: rest) (byteLength before) items := by
  cases items with
  | nil => exact IgnoredBetween.blank isBlank around
  | cons item others => exact ⟨IgnoredBetween.blank isBlank around.1, around.2⟩

theorem IgnoredBetween.empty (before after : List Char) :
    IgnoredBetween (before ++ after) (byteLength before) (byteLength before) :=
  ⟨before, [], after, by simp, rfl, by simp, .nothing⟩

theorem ignoredAround_itemsFrom (before rest : List Char) :
    IgnoredAround (before ++ rest) (byteLength before)
      (itemsFrom (byteLength before) (pieces rest)) := by
  fun_induction pieces rest generalizing before with
  | case1 =>
    rw [itemsFrom, IgnoredAround, List.append_nil]
    simpa using IgnoredBetween.empty before []
  | case2 c rest piece ih =>
    have later := ih (before ++ piece.chars)
    rw [List.append_assoc, (Piece.cut_covers c rest).1] at later
    rw [itemsFrom, ← byteLength_append]
    cases found : piece.item? (byteLength before) with
    | none => exact later.blank (Piece.item?_eq_none_iff.mp found)
    | some item =>
      rw [IgnoredAround, Piece.span_of_item? found, ← byteLength_append]
      exact ⟨.empty before _, later⟩

theorem Placed.pairwise {text : List Char} {low : Nat} {items : List LexItem}
    (placed : Placed text low items) :
    (∀ item ∈ items, (LexItem.span item).LiesIn text ∧ low ≤ (LexItem.span item).start) ∧
      (items.map LexItem.span).Pairwise fun first second => first.stop ≤ second.start := by
  induction items generalizing low with
  | nil => simp
  | cons item others ih =>
    obtain ⟨lies, after, later⟩ := placed
    obtain ⟨bounds, apart⟩ := ih later
    rw [List.forall_mem_cons, List.map_cons, List.pairwise_cons, List.forall_mem_map]
    refine ⟨⟨⟨lies, after⟩, fun other member => ?_⟩, fun other member => ?_, apart⟩
    · exact ⟨(bounds other member).1, after.trans (lies.ordered.trans (bounds other member).2)⟩
    · exact (bounds other member).2

/-- The items of a text make it up together with what is ignored. -/
theorem covered_lexItems (text : List Char) : Covered text (lexItems text) := by
  obtain ⟨bounds, apart⟩ := (placed_lexItems text).pairwise
  have nonempty : ∀ item ∈ lexItems text,
      (LexItem.span item).start < (LexItem.span item).stop := by
    intro item member
    obtain ⟨before, c, after, -, found⟩ := exists_cut_of_mem_lexItems member
    rw [Piece.span_of_item? found]
    exact Nat.lt_add_of_pos_right (byteLength_pos (Piece.cut_covers c after).2)
  refine ⟨fun item member => (bounds item member).1, nonempty, ?_, apart,
    ignoredAround_itemsFrom [] text⟩
  rw [List.pairwise_map] at apart ⊢
  refine apart.imp_of_mem fun first second before => ?_
  exact ⟨(nonempty _ first).trans_le before, before.trans_lt (nonempty _ second)⟩

/-! ## Reading to the end -/

/-- The items that a cursor gives, one at each call, until it gives none. -/
inductive Cursor.Reads : Cursor → List LexItem → Prop
  | ended {cursor after : Cursor} : cursor.next = (none, after) → Reads cursor []
  | item {cursor after : Cursor} {item : LexItem} {others : List LexItem} :
      cursor.next = (some item, after) → Reads after others → Reads cursor (item :: others)

/-- Looking for the next item leaves what comes after it. -/
theorem itemsFrom_eq_of_scanItem (offset : Nat) (text : List Char) :
    itemsFrom offset (pieces text) =
      match scanItem offset text with
      | (none, _, _) => []
      | (some item, next, rest) => item :: itemsFrom next (pieces rest) := by
  fun_induction scanItem offset text with
  | case1 => rw [pieces, itemsFrom]
  | case2 offset c rest piece next item found =>
    rw [pieces, itemsFrom]
    simp only [found, piece, next]
  | case3 offset c rest piece next missing ih =>
    rw [pieces, itemsFrom]
    simp only [missing, piece, next] at ih ⊢
    exact ih

theorem scanItem_rest_length_lt {offset next : Nat} {text : List Char}
    (scanned : scanItem offset text = (some item, next, rest)) : rest.length < text.length := by
  fun_induction scanItem offset text with
  | case1 => cases scanned
  | case2 offset c after piece _ _ _ =>
    rw [Prod.mk.injEq, Prod.mk.injEq] at scanned
    rw [← scanned.2.2]
    exact Piece.cut_rest_length_lt c after
  | case3 offset c after piece _ _ ih =>
    exact (ih scanned).trans (Piece.cut_rest_length_lt c after)

theorem Cursor.reads_itemsFrom (offset : Nat) (text : List Char) :
    Reads ⟨offset, text, []⟩ (itemsFrom offset (pieces text)) := by
  rw [itemsFrom_eq_of_scanItem]
  match scanned : scanItem offset text with
  | (none, next, rest) => exact .ended (by rw [Cursor.next, scanned])
  | (some item, next, rest) =>
    exact .item (by rw [Cursor.next, scanned]) (reads_itemsFrom next rest)
  termination_by text.length
  decreasing_by exact scanItem_rest_length_lt scanned

theorem length_itemsFrom_le (offset : Nat) (text : List Char) :
    (itemsFrom offset (pieces text)).length ≤ text.length := by
  fun_induction pieces text generalizing offset with
  | case1 => exact Nat.le_refl 0
  | case2 c rest piece ih =>
    have later := ih (offset + byteLength piece.chars)
    have shorter : piece.rest.length < (c :: rest).length := Piece.cut_rest_length_lt c rest
    rw [itemsFrom]
    split
    · exact later.trans shorter.le
    · exact Nat.succ_le_of_lt (later.trans_lt shorter)

/-- Reading a text to its end takes at most one call for each character and one more, and the items
that it gives make up the text together with what is ignored. -/
theorem reading_covers_text (text : List Char) :
    (Cursor.ofText text).Reads (lexItems text) ∧ (lexItems text).length ≤ text.length ∧
      Covered text (lexItems text) :=
  ⟨Cursor.reads_itemsFrom 0 text, length_itemsFrom_le 0 text, covered_lexItems text⟩

end SmallC
