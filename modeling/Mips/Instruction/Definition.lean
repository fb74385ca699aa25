import Mips.Word.Layout

/-! # Instruction definitions

A definition gives an instruction its name, its format, its opcode and its function code. Format
and codes together fix its shape: which operands it takes and which fields they go to. -/

namespace Mips
set_option autoImplicit false

/-- The layout of an instruction word. -/
inductive Format where
  | register
  | immediate
  | jump
deriving DecidableEq, Repr

namespace Format

def letter : Format → String
  | .register => "R"
  | .immediate => "I"
  | .jump => "J"

def ofLetter? : String → Option Format
  | "R" | "r" => some .register
  | "I" | "i" => some .immediate
  | "J" | "j" => some .jump
  | _ => none

theorem ofLetter?_letter (format : Format) : ofLetter? format.letter = some format := by
  cases format <;> rfl

end Format

/-- The operands of an instruction. -/
inductive Shape where
  /-- A register that holds the target. -/
  | jumpRegister
  /-- Destination, source and shift amount. -/
  | shift
  /-- Destination and two sources. -/
  | arithmetic
  /-- Two registers and a label. -/
  | branchEqual
  /-- A register and a label. -/
  | branchCompare
  /-- Destination, source and a literal. -/
  | immediate
  /-- A label. -/
  | jump
deriving DecidableEq, Repr

structure Definition where
  name : String
  format : Format
  opcode : Byte
  funct : Byte
deriving DecidableEq, Repr

namespace Definition

/-- The function code of the jump that saves the return address. -/
def linkFunct : Byte := 0x09

/-- Register formats are told apart by the function code and immediate formats by the opcode. -/
def shape (d : Definition) : Shape :=
  match d.format with
  | .register =>
    if d.funct = 0x08 ∨ d.funct = linkFunct then .jumpRegister
    else if d.funct = 0x00 ∨ d.funct = 0x02 then .shift
    else .arithmetic
  | .immediate =>
    if d.opcode = 0x04 ∨ d.opcode = 0x05 then .branchEqual
    else if d.opcode = 0x06 ∨ d.opcode = 0x07 then .branchCompare
    else .immediate
  | .jump => .jump

/-- Whether a word with these codes is written with this definition. -/
def hasCodes (d : Definition) (opcode funct : Byte) : Bool :=
  match d.format with
  | .register => d.opcode == opcode && d.funct == funct
  | .immediate | .jump => d.opcode == opcode

end Definition

end Mips
