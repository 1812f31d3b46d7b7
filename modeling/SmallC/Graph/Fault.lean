import SmallC.Graph.Instruction
import SmallC.Tree

/-!
# Faults

What can go wrong inside the compiler when a graph is built, listed or emitted. No program that
passes the checks leads to one; a graph that is built by hand may.
-/

namespace SmallC

/-- The two jumps that need a loop around them. -/
inductive LoopExit where
  | breakLoop
  | continueLoop
  deriving DecidableEq, Repr

/-- The word that stands for a jump out of a loop. -/
def LoopExit.word : LoopExit → String
  | .breakLoop => "break"
  | .continueLoop => "continue"

/-- A failure inside the compiler. -/
inductive Fault where
  | outOfBounds (error : OutOfBounds)
  | operandCount (operation : Operation) (count : Nat)
  | slotExpected (operand : Operand)
  | literalExpected
  | labelExpected
  | functionExpected
  | malformedExits (label : String)
  | appendedTwice (label : String)
  | poppedParameters (function : String)
  | voidSize
  | voidVariable (name : String)
  | declaredTwice (name : String)
  | hidesParameter (name function : String)
  | notInParameterScope (depth : Nat)
  | parameterOrder (position : Nat) (function : String) (offset expected : Int)
  /-- A frame offset does not fit into 32 bits. -/
  | frameOverflow
  | undeclared (name function : String)
  | outsideLoop (exit : LoopExit)
  | invalidInteger (text : String)
  | emptyCharLiteral
  deriving DecidableEq, Repr

namespace Fault

/-- Marks a message as one about the compiler itself. -/
def internal (message : String) : String :=
  "internal compiler error: " ++ message

/-- The text of a comparison that came out wrong. -/
def comparison (relation message left right : String) : String :=
  "assertion `left " ++ relation ++ " right` failed: " ++ message ++ "\n  left: " ++ left ++
    "\n right: " ++ right

/-- The text of a fault. An overflow has none of its own. -/
def message? : Fault → Option String
  | .outOfBounds error => some error.message
  | .operandCount operation count =>
    some (internal ("`" ++ operation.mnemonic ++ "` does not take " ++ toString count ++
      " operands"))
  | .slotExpected operand =>
    some (internal ("expected a slot operand, got " ++ operand.describe))
  | .literalExpected => some (internal "ldconst expects a literal")
  | .labelExpected => some (internal "jump expects a label")
  | .functionExpected => some (internal "call target must be a function name")
  | .malformedExits label =>
    some (internal ("block " ++ label ++ " has a malformed successor shape"))
  | .appendedTwice label => some (internal ("block " ++ label ++ " appended twice"))
  | .poppedParameters function =>
    some (internal ("popped the parameter scope of " ++ function))
  | .voidSize => some (internal "void has no size")
  | .voidVariable name =>
    some (comparison "!=" (internal ("`" ++ name ++ "` declared with type void")) "Void" "Void")
  | .declaredTwice name =>
    some (internal ("`" ++ name ++ "` declared twice in the same scope"))
  | .hidesParameter name function =>
    some (internal ("`" ++ name ++ "` shadows a parameter of " ++ function))
  | .notInParameterScope depth =>
    some (comparison "=="
      (internal "parameters must be declared in the parameter scope") (toString depth) "1")
  | .parameterOrder position function offset expected =>
    some (comparison "=="
      (internal ("parameter " ++ toString position ++ " of " ++ function ++
        " declared out of order"))
      (toString offset) (toString expected))
  | .frameOverflow => none
  | .undeclared name function =>
    some (internal ("`" ++ name ++ "` is not declared in `" ++ function ++
      "` but passed validation"))
  | .outsideLoop exit =>
    some (internal ("`" ++ exit.word ++ "` outside of a loop passed validation"))
  | .invalidInteger text =>
    some (internal ("invalid integer literal " ++ text ++
      ": number too large to fit in target type"))
  | .emptyCharLiteral => some (internal "empty character literal")

end Fault

/-- Turns the use of a missing key into a fault. -/
def Fault.ofTable (result : Except OutOfBounds α) : Except Fault α :=
  result.mapError .outOfBounds

namespace TypeName

/-- A type as it is written. -/
def spelling : TypeName → String
  | .int => "int"
  | .void => "void"

/-- The number of bytes that a value of a type takes. -/
def size : TypeName → Except Fault Nat
  | .int => .ok 4
  | .void => .error .voidSize

end TypeName

/-- The slot that an operand has to be. -/
def Operand.asSlot : Operand → Except Fault Slot
  | .slot key => .ok key
  | other => .error (.slotExpected other)

/-- An instruction with a number of operands that its operation takes. -/
def Instruction.make (operation : Operation) (operands : List Operand) :
    Except Fault Instruction :=
  if operation.accepts operands.length then
    .ok ⟨operation, operands⟩
  else
    .error (.operandCount operation operands.length)

end SmallC
