import Mips.Instruction.Set
import Mips.Operation.Resolve

/-! # Encodings

The encoding of an operation is its word, and the field that its last operand did not fit, if any:
a value out of range is cut to the width of its field, in two's complement.

* `Operation.encode`: total, since all faults of the operands were found before.
* `Target.encodeStatement`: the encoding of a line. A line that asks for no instruction is the
  zero word. -/

namespace Mips
set_option autoImplicit false

/-- The fields that can be too narrow for an operand. -/
inductive NarrowField where
  | shamt
  | immediate
  | branchOffset
  | jumpTarget
deriving DecidableEq, Repr

def NarrowField.name : NarrowField → String
  | .shamt => "SHAMT"
  | .immediate => "IMMEDIATE"
  | .branchOffset => "BRANCH_OFFSET"
  | .jumpTarget => "JUMP_TARGET"

structure Encoding where
  word : Word
  truncated : Option NarrowField
deriving DecidableEq, Repr

namespace Encoding

/-- The encoding of a line that asks for no instruction. -/
def zero : Encoding :=
  ⟨0, none⟩

end Encoding

namespace NarrowField

/-- The field itself if a value lies outside the closed range. -/
def unlessWithin (field : NarrowField) (lo hi value : Int) : Option NarrowField :=
  if lo ≤ value ∧ value ≤ hi then none else some field

end NarrowField

namespace Operation

/-- A branch counts slots from the one after it. -/
def branchOffset (slot target : Nat) : Int :=
  (target : Int) - slot - 1

/-- The word of an operation under a definition, for a program at a base address and a line at a
slot. -/
def encode (d : Definition) (base : Address) (slot : Nat) (operation : Operation) : Encoding :=
  let opcode : BitVec 6 := d.opcode.setWidth 6
  let funct : BitVec 6 := d.funct.setWidth 6
  match operation with
  | .jumpRegister target =>
    let link := if d.funct = Definition.linkFunct then Register.returnAddress else 0
    ⟨Word.ofRegisterFields opcode target 0 link 0 funct, none⟩
  | .shift rd rt amount =>
    ⟨Word.ofRegisterFields opcode 0 rt rd (BitVec.ofInt 5 amount) funct,
      NarrowField.shamt.unlessWithin 0 31 amount⟩
  | .arithmetic rd rs rt => ⟨Word.ofRegisterFields opcode rs rt rd 0 funct, none⟩
  | .branchEqual rs rt target =>
    let offset := branchOffset slot target
    ⟨Word.ofImmediateFields opcode rs rt (BitVec.ofInt 16 offset),
      NarrowField.branchOffset.unlessWithin (-32768) 32767 offset⟩
  | .branchCompare rs target =>
    let offset := branchOffset slot target
    ⟨Word.ofImmediateFields opcode rs 0 (BitVec.ofInt 16 offset),
      NarrowField.branchOffset.unlessWithin (-32768) 32767 offset⟩
  | .immediate rt rs value =>
    ⟨Word.ofImmediateFields opcode rs rt (BitVec.ofInt 16 value),
      NarrowField.immediate.unlessWithin (-32768) 65535 value⟩
  | .jump target =>
    let wordAddress := slotAddress base target >>> 2
    ⟨Word.ofJumpFields opcode (wordAddress.setWidth 22),
      NarrowField.jumpTarget.unlessWithin 0 0x3FFFFF wordAddress.toNat⟩

end Operation

/-! ## Lines -/

/-- What a program is assembled for: the instructions that can be used and the load address. -/
structure Target where
  instructions : InstructionSet
  base : Address

namespace Target

/-- The encoding of an instruction at a slot, by its mnemonic and operand tokens. -/
def encodeInstruction (target : Target) (symbols : Symbols) (slot : Nat) (operands : Operands) :
    Except LineFault Encoding :=
  match target.instructions.find? operands.mnemonic with
  | none => .error (.unknownMnemonic operands.mnemonic)
  | some d => do
    let operation ← Operation.resolve symbols operands d.shape
    return operation.encode d target.base slot

def encodeStatement (target : Target) (symbols : Symbols) (statement : Statement) :
    Except Diagnostic Encoding :=
  match statement.body with
  | .instruction mnemonic operands =>
    (target.encodeInstruction symbols statement.slot ⟨mnemonic, operands⟩).mapError
      (⟨statement.slot, ·⟩)
  | _ => .ok .zero

end Target

end Mips
