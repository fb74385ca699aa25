import Mips.Instruction.Set
import Mips.Register.Name
import Mips.Text.Hex

/-! # Disassembly

A word is written as the instruction of the first definition with its codes. The zero word is
written as `nop`, and a word without a definition as data. -/

namespace Mips
set_option autoImplicit false

/-- The name of a register field, of which the lowest five bits count. -/
def registerFieldName (field : Byte) : String :=
  Register.name (field.setWidth 5)

def Address.text (address : Address) : String :=
  Text.hex0x 8 address.toNat

/-- The operands of a shape, as text, for a word at an address. -/
def Fields.operandTexts (fields : Fields) (address : Address) : Shape → List String
  | .jumpRegister => [registerFieldName fields.rs]
  | .shift => [registerFieldName fields.rd, registerFieldName fields.rt,
      toString fields.shamt.toNat]
  | .arithmetic => [registerFieldName fields.rd, registerFieldName fields.rs,
      registerFieldName fields.rt]
  | .branchEqual => [registerFieldName fields.rs, registerFieldName fields.rt,
      Address.text (fields.branchTarget address)]
  | .branchCompare => [registerFieldName fields.rs, Address.text (fields.branchTarget address)]
  | .immediate => [registerFieldName fields.rt, registerFieldName fields.rs,
      toString fields.signedImmediate]
  | .jump => [Address.text fields.jumpTarget]

def Definition.disassemble (d : Definition) (fields : Fields) (address : Address) : String :=
  d.name ++ " " ++ ", ".intercalate (fields.operandTexts address d.shape)

namespace InstructionSet

/-- The first definition that a word can be written with. -/
def decode? (set : InstructionSet) (word : Word) : Option Definition :=
  let fields := Fields.ofWord word
  set.findCodes? fields.opcode fields.funct

def disassemble (set : InstructionSet) (word : Word) (address : Address) : String :=
  if word = 0 then "nop"
  else
    match set.decode? word with
    | some d => d.disassemble (Fields.ofWord word) address
    | none => ".word " ++ Text.hex0x 8 word.toNat

end InstructionSet

end Mips
