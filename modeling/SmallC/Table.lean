/-!
# Tables with typed keys

A table holds entries under keys that count from zero in the order of insertion. Each kind of table
has its own type of keys, so a key of one table cannot be used on another. Entries are never
removed, so a key keeps its entry. Keys have 32 bits, which is room for every table of a program.
-/

namespace SmallC

/-- A type of keys: 32-bit numbers under another name. -/
class TableKey (κ : Type) where
  ofNumber : UInt32 → κ
  number : κ → UInt32
  /-- The name of the type of keys in messages. -/
  name : String
  number_ofNumber : ∀ value : UInt32, number (ofNumber value) = value
  ofNumber_number : ∀ key : κ, ofNumber (number key) = key

namespace TableKey

variable {κ : Type} [TableKey κ]

/-- The key of an index. Indices that do not fit into 32 bits start again from zero. -/
def ofIndex (position : Nat) : κ :=
  ofNumber (UInt32.ofNat position)

/-- The index that a key stands for. -/
def index (key : κ) : Nat :=
  (number key).toNat

/-- A key keeps the low 32 bits of its index. -/
theorem index_ofIndex (position : Nat) : index (ofIndex position : κ) = position % 0x100000000 := by
  rw [index, ofIndex, number_ofNumber, UInt32.toNat_ofNat']

/-- A key keeps an index of 32 bits. -/
theorem index_ofIndex_of_lt {position : Nat} (fits : position < 0x100000000) :
    index (ofIndex position : κ) = position := by
  rw [index_ofIndex, Nat.mod_eq_of_lt fits]

@[simp]
theorem ofIndex_index (key : κ) : ofIndex (index key) = key := by
  simp [index, ofIndex, ofNumber_number]

end TableKey

/-- A key as it is shown in messages. -/
def TableKey.show (κ : Type) [TableKey κ] (key : κ) : String :=
  TableKey.name κ ++ "(" ++ toString (TableKey.index key) ++ ")"

/-- The use of a key that a table does not have. -/
structure OutOfBounds where
  key : String
  size : Nat
  deriving DecidableEq, Repr

/-- The text of the use of a missing key. -/
def OutOfBounds.message (error : OutOfBounds) : String :=
  "index " ++ error.key ++ " out of bounds (len = " ++ toString error.size ++ ")"

/-- Entries under the keys `0, 1, 2, …`. -/
structure Table (κ : Type) (α : Type) where
  entries : List α
  deriving Repr

namespace Table

variable {κ : Type} {α : Type}

/-- The table without entries. -/
def empty : Table κ α :=
  ⟨[]⟩

/-- The number of entries. -/
def size (table : Table κ α) : Nat :=
  table.entries.length

/-- Adds an entry under the next key. -/
def push (table : Table κ α) (entry : α) : Table κ α :=
  ⟨table.entries ++ [entry]⟩

variable [TableKey κ]

/-- The key that the next entry gets. -/
def nextKey (table : Table κ α) : κ :=
  TableKey.ofIndex table.size

/-- The keys of a table, in order. -/
def keys (table : Table κ α) : List κ :=
  (List.range table.size).map TableKey.ofIndex

/-- The keys and entries of a table, in order. -/
def enumerate (table : Table κ α) : List (κ × α) :=
  table.keys.zip table.entries

/-- The entry under a key. -/
def get? (table : Table κ α) (key : κ) : Option α :=
  table.entries[TableKey.index key]?

/-- The error of using a key that the table does not have. -/
def outOfBounds (table : Table κ α) (key : κ) : OutOfBounds :=
  ⟨TableKey.show κ key, table.size⟩

/-- The entry under a key that the table has to have. -/
def get (table : Table κ α) (key : κ) : Except OutOfBounds α :=
  match table.get? key with
  | some entry => .ok entry
  | none => .error (table.outOfBounds key)

/-- Changes the entry under a key that the table has to have. -/
def modify (table : Table κ α) (key : κ) (change : α → α) : Except OutOfBounds (Table κ α) :=
  if TableKey.index key < table.size then
    .ok ⟨table.entries.modify (TableKey.index key) change⟩
  else
    .error (table.outOfBounds key)

/-! ## Text -/

/-- The entries of a table on one line. -/
def describe (showEntry : α → String) (table : Table κ α) : String :=
  let entries := table.enumerate.map fun entry =>
    TableKey.show κ entry.1 ++ ": " ++ showEntry entry.2
  "\x7b" ++ ", ".intercalate entries ++ "\x7d"

/-- The entries of a table with every key and entry on lines of its own. -/
def describeLines (showEntry : α → String) (table : Table κ α) : String :=
  let entries := table.enumerate.map fun entry =>
    "    " ++ TableKey.name κ ++ "(\n        " ++ toString (TableKey.index entry.1) ++
      ",\n    ): " ++ showEntry entry.2 ++ ",\n"
  if entries.isEmpty then "\x7b\x7d" else "\x7b\n" ++ String.join entries ++ "\x7d"

/-! ## Keys keep their entries -/

omit [TableKey κ] in
@[simp]
theorem size_push (table : Table κ α) (entry : α) : (table.push entry).size = table.size + 1 := by
  simp [size, push]

/-- A new entry leaves the other entries where they are. -/
theorem get?_push_of_lt {table : Table κ α} {key : κ} (known : TableKey.index key < table.size)
    (entry : α) : (table.push entry).get? key = table.get? key := by
  simpa [get?, push] using List.getElem?_append_left known

/-- The entries under the keys of a table are exactly those below its size. -/
theorem get?_eq_none_iff {table : Table κ α} {key : κ} :
    table.get? key = none ↔ table.size ≤ TableKey.index key := by
  simp [get?, size]

/-- Looking up an entry that has to exist succeeds exactly when it exists. -/
theorem get_eq_ok_iff {table : Table κ α} {key : κ} {entry : α} :
    table.get key = .ok entry ↔ table.get? key = some entry := by
  unfold get
  split <;> simp_all

end Table

end SmallC
