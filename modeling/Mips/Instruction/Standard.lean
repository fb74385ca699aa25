import Mips.Instruction.Set

/-! # The built-in instruction set

The definitions used where no others are given. -/

namespace Mips.InstructionSet
set_option autoImplicit false

def standardDefinitions : List Definition :=
  [⟨"add", .register, 0x00, 0x20⟩, ⟨"sub", .register, 0x00, 0x22⟩,
   ⟨"and", .register, 0x00, 0x24⟩, ⟨"or", .register, 0x00, 0x25⟩,
   ⟨"xor", .register, 0x00, 0x26⟩, ⟨"nor", .register, 0x00, 0x27⟩,
   ⟨"slt", .register, 0x00, 0x2a⟩, ⟨"div", .register, 0x00, 0x1a⟩,
   ⟨"sll", .register, 0x00, 0x00⟩, ⟨"srl", .register, 0x00, 0x02⟩,
   ⟨"jr", .register, 0x00, 0x08⟩, ⟨"jalr", .register, 0x00, 0x09⟩,
   ⟨"j", .jump, 0x02, 0x00⟩, ⟨"jal", .jump, 0x03, 0x00⟩,
   ⟨"beq", .immediate, 0x04, 0x00⟩, ⟨"bne", .immediate, 0x05, 0x00⟩,
   ⟨"blez", .immediate, 0x06, 0x00⟩, ⟨"bgtz", .immediate, 0x07, 0x00⟩,
   ⟨"addi", .immediate, 0x08, 0x00⟩, ⟨"addiu", .immediate, 0x09, 0x00⟩,
   ⟨"slti", .immediate, 0x0a, 0x00⟩, ⟨"sltiu", .immediate, 0x0b, 0x00⟩,
   ⟨"andi", .immediate, 0x0c, 0x00⟩, ⟨"ori", .immediate, 0x0d, 0x00⟩,
   ⟨"xori", .immediate, 0x0e, 0x00⟩]

/-- The built-in definitions, indexed under their names as they are spelled. -/
def standard : InstructionSet :=
  ⟨standardDefinitions.toArray,
    .ofList (standardDefinitions.mapIdx fun position d => (d.name, position))⟩

/-- The names have no capital letters, so that the index is the one that additions make. -/
theorem ofList_standardDefinitions : ofList standardDefinitions = .ok standard := rfl

end Mips.InstructionSet
