import Mips.Instruction.Standard
import Mips.Proofs.Operation.Packing
import Mips.Proofs.Program.Passes

/-! # Where branches and jumps lead

A word shows the address that its branch or jump leads to. Where no operand was cut, that is the
address of the label that its line names, except that a jump cannot lead into the middle of a word.

* `Target.Assembles.exists_target`: the operation of a slot, with the slot of the label it names.
* `Target.branchTarget_of_assemble`: a branch leads to its label.
* `Target.jumpTarget_of_assemble`: a jump leads to the word in which its label lies, and to the
  label itself exactly if the base address is a multiple of four. -/

namespace Mips
set_option autoImplicit false

namespace Target

/-! ## One slot -/

theorem Assembles.exists_target {target : Target} {lines : List String} {program : Program}
    (h : target.Assembles lines program) {slot : Nat} {statement : Statement}
    {placed : PlacedWord} {shape : Shape} {position : Nat}
    (hstatement : program.statements[slot]? = some statement)
    (hplaced : program.placedWords[slot]? = some placed)
    (hshape : statement.shape? target.instructions = some shape)
    (hposition : shape.labelPosition? = some position) :
    ∃ (d : Definition) (operation : Operation) (name : String) (place : Nat),
      d.shape = shape ∧ operation.shape = shape ∧ operation.target? = some place ∧
      statement.namedLabel? target.instructions = some name ∧
      program.symbols.slotOf? name = some place ∧
      placed.address = slotAddress target.base slot ∧
      placed.word = (operation.encode d target.base slot).word ∧
      placed.truncated = (operation.encode d target.base slot).truncated := by
  rw [h.statements_eq, Statement.getElem?_parseLines, Option.map_eq_some_iff] at hstatement
  obtain ⟨line, hline, rfl⟩ := hstatement
  obtain ⟨encoding, hencode, hget⟩ := h.placedWord hline
  rw [hplaced, Option.some.injEq] at hget
  obtain ⟨d, operation, name, place, hd, hoperation, hplace, hname, hslot, hencoding⟩ :=
    exists_namedLabel hencode hshape hposition
  rw [hget, hencoding]
  exact ⟨d, operation, name, place, hd, hoperation, hplace, hname, hslot, rfl, rfl, rfl⟩

/-! ## Branches -/

/-- A branch that was not cut holds the distance to the label that its line names, and leads to the
address of that label, where one of the words of the program stands. -/
theorem branchTarget_of_assemble (target : Target) (lines : List String) (program : Program)
    (hassemble : target.assemble lines = .ok program) (slot : Nat) (statement : Statement)
    (placed : PlacedWord) (hstatement : program.statements[slot]? = some statement)
    (hplaced : program.placedWords[slot]? = some placed)
    (hshape : statement.shape? target.instructions = some .branchEqual ∨
      statement.shape? target.instructions = some .branchCompare)
    (hfits : placed.truncated ≠ some .branchOffset) :
    ∃ (name : String) (place : Nat),
      statement.namedLabel? target.instructions = some name ∧
      program.symbols.slotOf? name = some place ∧
      (Fields.ofWord placed.word).signedImmediate = (place : Int) - slot - 1 ∧
      (Fields.ofWord placed.word).branchTarget placed.address = program.addressOf place ∧
      ∃ there, program.placedWords[place]? = some there ∧
        there.address = program.addressOf place := by
  have h := (assemble_eq_ok_iff target lines program).mp hassemble
  obtain ⟨shape, hbranch, hsome, position, hposition⟩ : ∃ shape,
      (shape = Shape.branchEqual ∨ shape = .branchCompare) ∧
      statement.shape? target.instructions = some shape ∧
      ∃ position, shape.labelPosition? = some position := by
    rcases hshape with hsome | hsome
    · exact ⟨_, .inl rfl, hsome, 2, rfl⟩
    · exact ⟨_, .inr rfl, hsome, 1, rfl⟩
  obtain ⟨d, operation, name, place, hd, hoperation, hplace, hname, hslot, haddress, hword,
    htruncated⟩ := h.exists_target hstatement hplaced hsome hposition
  rw [htruncated] at hfits
  rw [← hd] at hbranch hoperation
  have himmediate := Operation.signedImmediate_of_branch hbranch hoperation hplace hfits
  rw [← hword] at himmediate
  refine ⟨name, place, hname, hslot, himmediate, ?_, h.exists_placedWord hslot⟩
  rw [haddress, Fields.branchTarget_of_signedImmediate _ target.base slot place himmediate,
    Program.addressOf, h.base_eq]

/-- A branch backwards over the end of the address space, at a base that is no multiple of four. -/
theorem branchTarget_of_assemble_across_zero :
    ∃ program placed,
      assemble ⟨InstructionSet.standard, 0xFFFFFFFA⟩
        ["top: nop", "beq $t0, $t1, top", "blez $t0, top"] = .ok program ∧
      program.placedWords[2]? = some placed ∧ placed.address = 0x00000002 ∧
      ∃ (name : String) (place : Nat),
        (Statement.parse 2 "blez $t0, top").namedLabel? InstructionSet.standard = some name ∧
        program.symbols.slotOf? name = some place ∧
        (Fields.ofWord placed.word).signedImmediate = (place : Int) - (2 : Nat) - 1 ∧
        (Fields.ofWord placed.word).branchTarget placed.address = program.addressOf place ∧
        ∃ there, program.placedWords[place]? = some there ∧
          there.address = program.addressOf place :=
  ⟨_, _, rfl, rfl, rfl, branchTarget_of_assemble ⟨InstructionSet.standard, 0xFFFFFFFA⟩
    ["top: nop", "beq $t0, $t1, top", "blez $t0, top"] _ rfl 2 (Statement.parse 2 "blez $t0, top") _
    rfl rfl (by decide +kernel) (by decide +kernel)⟩

/-! ## Jumps -/

/-- A jump that was not cut leads to the word in which the label that its line names lies. This is
the address of the label exactly if the base address is a multiple of four. -/
theorem jumpTarget_of_assemble (target : Target) (lines : List String) (program : Program)
    (hassemble : target.assemble lines = .ok program) (slot : Nat) (statement : Statement)
    (placed : PlacedWord) (hstatement : program.statements[slot]? = some statement)
    (hplaced : program.placedWords[slot]? = some placed)
    (hshape : statement.shape? target.instructions = some .jump)
    (hfits : placed.truncated ≠ some .jumpTarget) :
    ∃ (name : String) (place : Nat),
      statement.namedLabel? target.instructions = some name ∧
      program.symbols.slotOf? name = some place ∧
      (Fields.ofWord placed.word).jumpTarget.toNat = (program.addressOf place).toNat / 4 * 4 ∧
      ((Fields.ofWord placed.word).jumpTarget = program.addressOf place ↔
        target.base.toNat % 4 = 0) := by
  have h := (assemble_eq_ok_iff target lines program).mp hassemble
  obtain ⟨d, operation, name, place, hd, hoperation, hplace, hname, hslot, -, hword, htruncated⟩ :=
    h.exists_target hstatement hplaced hshape rfl
  rw [htruncated] at hfits
  rw [← hd] at hoperation
  have htarget := Operation.target_of_jump hd hoperation hplace hfits
  rw [← hword, ← h.base_eq] at htarget
  have hjump := Fields.toNat_jumpTarget _ (program.addressOf place) htarget
  refine ⟨name, place, hname, hslot, hjump, ?_⟩
  rw [Program.addressOf, Fields.jumpTarget_eq_iff _ _ htarget, slotAddress_mod_four, h.base_eq]

/-- A jump to a label at address zero, behind the end of the address space. -/
theorem jumpTarget_of_assemble_across_zero :
    ∃ program placed,
      assemble ⟨InstructionSet.standard, 0xFFFFFFFC⟩ ["j next", "next: nop"] = .ok program ∧
      program.placedWords[0]? = some placed ∧
      ∃ (name : String) (place : Nat),
        (Statement.parse 0 "j next").namedLabel? InstructionSet.standard = some name ∧
        program.symbols.slotOf? name = some place ∧
        (Fields.ofWord placed.word).jumpTarget.toNat = (program.addressOf place).toNat / 4 * 4 ∧
        ((Fields.ofWord placed.word).jumpTarget = program.addressOf place ↔
          (0xFFFFFFFC : Address).toNat % 4 = 0) :=
  ⟨_, _, rfl, rfl, jumpTarget_of_assemble ⟨InstructionSet.standard, 0xFFFFFFFC⟩
    ["j next", "next: nop"] _ rfl 0 (Statement.parse 0 "j next") _ rfl rfl (by decide +kernel)
    (by decide +kernel)⟩

/-- A jump to itself that was not cut, and leads two bytes before itself. -/
theorem jumpTarget_ne_addressOf_label :
    ∃ program placed,
      assemble ⟨InstructionSet.standard, 0x00400002⟩ ["here: j here"] = .ok program ∧
      program.statements[0]? = some (Statement.parse 0 "here: j here") ∧
      program.placedWords[0]? = some placed ∧
      (Statement.parse 0 "here: j here").shape? InstructionSet.standard = some .jump ∧
      (Statement.parse 0 "here: j here").namedLabel? InstructionSet.standard = some "here" ∧
      program.symbols.slotOf? "here" = some 0 ∧ placed.truncated = none ∧
      (Fields.ofWord placed.word).jumpTarget = 0x00400000 ∧
      program.addressOf 0 = 0x00400002 :=
  ⟨_, _, rfl, rfl, rfl, rfl, rfl, rfl, rfl, rfl, rfl⟩

end Target

end Mips
