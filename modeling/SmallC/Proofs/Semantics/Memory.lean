import Mathlib

/-!
# Memory

The address space as bytes, and numbers of several bytes in it, lowest byte first.  What is written
is read back, a shorter number reads the lowest bytes of a longer one, and numbers at places that do
not overlap are independent of each other.  Places are given by their distance from one address, so
that they are compared as integers even where addresses wrap around.
-/

namespace SmallC.Assembly

/-- What the bytes of the address space hold. -/
abbrev Memory := BitVec 64 → BitVec 8

/-- The address at a distance from another one. -/
def displaced (base : BitVec 64) (offset : Int) : BitVec 64 :=
  base + BitVec.ofInt 64 offset

@[simp]
theorem displaced_zero (base : BitVec 64) : displaced base 0 = base := by
  simp [displaced]

@[simp]
theorem displaced_displaced (base : BitVec 64) (first second : Int) :
    displaced (displaced base first) second = displaced base (first + second) := by
  simp [displaced, BitVec.ofInt_add, BitVec.add_assoc]

/-- The distance between two places is taken modulo the size of the address space. -/
theorem toNat_displaced_sub (base : BitVec 64) (first second : Int) :
    (displaced base first - displaced base second).toNat = ((first - second) % 2 ^ 64).toNat := by
  have sub_eq :
      displaced base first - displaced base second = BitVec.ofInt 64 (first - second) := by
    simp only [displaced, sub_eq_add_neg, BitVec.ofInt_add, BitVec.ofInt_neg]
    ring
  rw [sub_eq, BitVec.toNat_ofInt]
  rfl

namespace Memory

/-! ## Numbers of any length -/

/-- The number in some bytes from an address on. -/
def read (memory : Memory) (address : BitVec 64) : (bytes : Nat) → BitVec (8 * bytes)
  | 0 => 0
  | bytes + 1 => memory.read (displaced address 1) bytes ++ memory address

/-- The memory in which a number is stored from an address on. -/
def write (memory : Memory) (address : BitVec 64) (bytes : Nat) (value : BitVec (8 * bytes)) :
    Memory := fun place =>
  let index := (place - address).toNat
  if index < bytes then value.extractLsb' (8 * index) 8 else memory place

theorem getLsbD_read (memory : Memory) (address : BitVec 64) (bytes index : Nat) :
    (memory.read address bytes).getLsbD index =
      (decide (index < 8 * bytes) &&
        (memory (displaced address (index / 8 : Nat))).getLsbD (index % 8)) := by
  induction bytes generalizing address index with
  | zero => simp [read]
  | succ bytes ih =>
    show (memory.read (displaced address 1) bytes ++ memory address).getLsbD index = _
    rw [BitVec.getLsbD_append]
    by_cases low : index < 8
    · have first : index / 8 = 0 ∧ index % 8 = index ∧ index < 8 * (bytes + 1) := by omega
      simp [low, first]
    · have later : (index - 8) / 8 + 1 = index / 8 ∧ (index - 8) % 8 = index % 8 ∧
          (index - 8 < 8 * bytes ↔ index < 8 * (bytes + 1)) := by omega
      rw [if_neg low, ih, displaced_displaced, later.2.1, decide_eq_decide.mpr later.2.2,
        ← later.1, Nat.cast_add, Nat.cast_one, Int.add_comm 1]

/-- A number that is not longer than what was stored consists of its lowest bytes. -/
theorem read_write (memory : Memory) (address : BitVec 64) {bytes part : Nat}
    (value : BitVec (8 * bytes)) (isPart : part ≤ bytes) (fits : bytes ≤ 2 ^ 64) :
    (memory.write address bytes value).read address part = value.setWidth (8 * part) := by
  apply BitVec.eq_of_getLsbD_eq
  intro index inside
  have index_eq : (displaced address (index / 8 : Nat) - address).toNat = index / 8 := by
    have distance := toNat_displaced_sub address (index / 8 : Nat) 0
    rw [displaced_zero] at distance
    rw [distance]
    omega
  have known : index / 8 < bytes := by omega
  have together : 8 * (index / 8) + index % 8 = index := Nat.div_add_mod index 8
  have small : index % 8 < 8 := Nat.mod_lt _ (by omega)
  rw [getLsbD_read, write, index_eq, if_pos known, BitVec.getLsbD_extractLsb', together,
    BitVec.getLsbD_setWidth]
  simp [inside, small]

/-- The number at an address is made of the bytes there. -/
theorem read_congr {memory other : Memory} {address : BitVec 64} {bytes : Nat}
    (same : ∀ index < bytes,
      memory (displaced address (index : Nat)) = other (displaced address (index : Nat))) :
    memory.read address bytes = other.read address bytes := by
  apply BitVec.eq_of_getLsbD_eq
  intro index inside
  rw [getLsbD_read, getLsbD_read, same (index / 8) (by omega)]

/-- A byte beside what is stored stays as it was. -/
theorem write_of_outside (memory : Memory) (base : BitVec 64) {first distance : Int} {bytes : Nat}
    (value : BitVec (8 * bytes)) (outside : distance < first ∨ first + bytes ≤ distance)
    (near : first - distance < 2 ^ 63 ∧ distance - first < 2 ^ 63 ∧ bytes ≤ 2 ^ 63) :
    memory.write (displaced base first) bytes value (displaced base distance) =
      memory (displaced base distance) := by
  rw [write, toNat_displaced_sub, if_neg]
  omega

/-! ## Numbers of four and of eight bytes -/

/-- The number in the four bytes at an address. -/
def word (memory : Memory) (address : BitVec 64) : BitVec 32 :=
  memory.read address 4

/-- The number in the eight bytes at an address. -/
def quad (memory : Memory) (address : BitVec 64) : BitVec 64 :=
  memory.read address 8

/-- The memory with a number in the four bytes at an address. -/
def setWord (memory : Memory) (address : BitVec 64) (value : BitVec 32) : Memory :=
  memory.write address 4 value

/-- The memory with a number in the eight bytes at an address. -/
def setQuad (memory : Memory) (address : BitVec 64) (value : BitVec 64) : Memory :=
  memory.write address 8 value

variable (memory : Memory) (address : BitVec 64)

@[simp]
theorem word_setWord (value : BitVec 32) : (memory.setWord address value).word address = value := by
  rw [word, setWord, read_write _ _ _ (Nat.le_refl 4) (by omega)]
  exact BitVec.setWidth_eq value

@[simp]
theorem quad_setQuad (value : BitVec 64) : (memory.setQuad address value).quad address = value := by
  rw [quad, setQuad, read_write _ _ _ (Nat.le_refl 8) (by omega)]
  exact BitVec.setWidth_eq value

@[simp]
theorem word_setQuad (value : BitVec 64) :
    (memory.setQuad address value).word address = value.setWidth 32 := by
  rw [word, setQuad, read_write _ _ _ (show 4 ≤ 8 by omega) (by omega)]

theorem word_congr {memory other : Memory} {address : BitVec 64}
    (same : ∀ index < 4,
      memory (displaced address (index : Nat)) = other (displaced address (index : Nat))) :
    memory.word address = other.word address :=
  read_congr same

theorem quad_congr {memory other : Memory} {address : BitVec 64}
    (same : ∀ index < 8,
      memory (displaced address (index : Nat)) = other (displaced address (index : Nat))) :
    memory.quad address = other.quad address :=
  read_congr same

/-- Two distances whose difference is small beside the address space. -/
def Near (first second : Int) : Prop :=
  first - second < 2 ^ 62 ∧ second - first < 2 ^ 62

variable (base : BitVec 64) {first second distance : Int}

theorem setWord_of_outside (value : BitVec 32)
    (outside : distance < first ∨ first + 4 ≤ distance) (near : Near first distance) :
    memory.setWord (displaced base first) value (displaced base distance) =
      memory (displaced base distance) := by
  obtain ⟨above, below⟩ := near
  exact memory.write_of_outside base _ (by omega) (by omega)

theorem setQuad_of_outside (value : BitVec 64)
    (outside : distance < first ∨ first + 8 ≤ distance) (near : Near first distance) :
    memory.setQuad (displaced base first) value (displaced base distance) =
      memory (displaced base distance) := by
  obtain ⟨above, below⟩ := near
  exact memory.write_of_outside base _ (by omega) (by omega)

end Memory

-- From here on addresses and memories are known by the lemmas above, so that no comparison of two
-- processors looks into them.
attribute [irreducible] displaced Memory.word Memory.quad Memory.setWord Memory.setQuad

end SmallC.Assembly
