import SmallC.Token.Piece

/-!
# Reading items one by one

A cursor stands in a text and gives its items on demand. Looking ahead keeps the token it finds for
the next read, at the end of a queue. A stretch that is no token is not kept: it is reported once,
and the cursor moves past it.
-/

namespace SmallC

/-- A place in a text from which items are read. -/
structure Cursor where
  offset : Nat
  rest : List Char
  /-- The tokens that were looked at and not yet taken, first to last. They stand before
  `offset`. -/
  ahead : List Token
  deriving Repr

/-- The next item of a text at a byte offset, with the offset and the text after it. -/
def scanItem (offset : Nat) : List Char → Option LexItem × Nat × List Char
  | [] => (none, offset, [])
  | c :: rest =>
    let piece := Piece.cut c rest
    let next := offset + Text.byteLength piece.chars
    match piece.item? offset with
    | some item => (some item, next, piece.rest)
    | none => scanItem next piece.rest
  termination_by text => text.length
  decreasing_by exact Piece.cut_rest_length_lt c rest

namespace Cursor

/-- The cursor at the start of a text. -/
def ofText (text : List Char) : Cursor :=
  ⟨0, text, []⟩

/-- Reads the next item and moves past it. -/
def next (cursor : Cursor) : Option LexItem × Cursor :=
  match cursor.ahead with
  | token :: others => (some (.ok token), { cursor with ahead := others })
  | [] =>
    let (item, offset, rest) := scanItem cursor.offset cursor.rest
    (item, ⟨offset, rest, []⟩)

/-- Looks at the next item. A token stays to be read. -/
def peek (cursor : Cursor) : Option LexItem × Cursor :=
  match cursor.ahead with
  | token :: _ => (some (.ok token), cursor)
  | [] =>
    let (item, offset, rest) := scanItem cursor.offset cursor.rest
    match item with
    | some (.ok token) => (item, ⟨offset, rest, cursor.ahead ++ [token]⟩)
    | _ => (item, ⟨offset, rest, cursor.ahead⟩)

end Cursor

end SmallC
