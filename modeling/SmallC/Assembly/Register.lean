/-!
# Registers

The general registers that the emitted code uses, each of which can be addressed at three widths.
-/

namespace SmallC

/-- General registers. -/
inductive Register where
  | rax
  | rcx
  | rdx
  | rsi
  | rdi
  | r8
  | r9
  deriving DecidableEq, Repr

/-- How much of a register is addressed. -/
inductive Width where
  | byte
  | word32
  | word64
  deriving DecidableEq, Repr

namespace Register

/-- All general registers in use. -/
def all : List Register :=
  [.rax, .rcx, .rdx, .rsi, .rdi, .r8, .r9]

/-- The name of a register at a width. -/
def name : Register → Width → String
  | .rax, .word64 => "rax"
  | .rax, .word32 => "eax"
  | .rax, .byte => "al"
  | .rcx, .word64 => "rcx"
  | .rcx, .word32 => "ecx"
  | .rcx, .byte => "cl"
  | .rdx, .word64 => "rdx"
  | .rdx, .word32 => "edx"
  | .rdx, .byte => "dl"
  | .rsi, .word64 => "rsi"
  | .rsi, .word32 => "esi"
  | .rsi, .byte => "sil"
  | .rdi, .word64 => "rdi"
  | .rdi, .word32 => "edi"
  | .rdi, .byte => "dil"
  | .r8, .word64 => "r8"
  | .r8, .word32 => "r8d"
  | .r8, .byte => "r8b"
  | .r9, .word64 => "r9"
  | .r9, .word32 => "r9d"
  | .r9, .byte => "r9b"

/-- The register with a given full name. -/
def ofName? (text : String) : Option Register :=
  all.find? (·.name .word64 == text)

/-- The registers that pass the first arguments of a call, in order. -/
def arguments : List Register :=
  [.rdi, .rsi, .rdx, .rcx, .r8, .r9]

/-- The position of a register among those that pass arguments. -/
def argumentPosition? (register : Register) : Option Nat :=
  arguments.findIdx? (· == register)

theorem mem_all (register : Register) : register ∈ all := by
  cases register <;> simp [all]

end Register

end SmallC
