import Mips.Program.Disassembly
import Mips.Proofs.Instruction.Lookup
import Mips.Proofs.Program.Reporting

/-! # One program with its definitions in two orders

A line looks up its mnemonic and nothing else in an instruction set. Two sets of the same definitions
give the same answers, so the order of the definitions makes no difference to a program. It does make
one to a word that is decoded, which shows the first definition that matches.

* `InstructionSet.Agree`: two sets in which every name leads to the same definition.
* `InstructionSet.agree_of_perm`: lists of definitions that are permutations of each other make sets
  that agree.
* `Target.encodeSlot_of_agree`, `Target.assemble_of_agree`: one line and all lines with such sets.
* `Target.assemble_of_perm`: both together. -/

namespace Mips
set_option autoImplicit false

/-! ## Definitions in two orders -/

namespace InstructionSet

def Agree (set other : InstructionSet) : Prop :=
  ∀ name, set.find? name = other.find? name

theorem NamesDiffer.symm {a b : Definition} (h : NamesDiffer a b) : NamesDiffer b a :=
  Ne.symm h

theorem exists_ofList_of_perm {definitions others : List Definition}
    (h : definitions.Perm others) :
    (∃ set, ofList definitions = .ok set) ↔ ∃ set, ofList others = .ok set := by
  rw [exists_ofList_eq_ok_iff, exists_ofList_eq_ok_iff]
  exact h.pairwise_iff NamesDiffer.symm

theorem agree_of_perm {definitions others : List Definition} (h : definitions.Perm others)
    {set other : InstructionSet} (hset : ofList definitions = .ok set)
    (hother : ofList others = .ok other) : set.Agree other := by
  obtain ⟨hindexed, hlist⟩ := indexed_of_ofList hset
  obtain ⟨hindexed', hlist'⟩ := indexed_of_ofList hother
  intro name
  apply Option.ext
  intro d
  rw [hindexed.find?_eq_some_iff, hindexed'.find?_eq_some_iff, hlist, hlist', h.mem_iff]

end InstructionSet

/-! ## Programs -/

namespace Target

section Agree
variable {set other : InstructionSet} (h : set.Agree other) (base : Address)
include h

theorem encodeStatement_of_agree (symbols : Symbols) (statement : Statement) :
    encodeStatement ⟨set, base⟩ symbols statement =
      encodeStatement ⟨other, base⟩ symbols statement := by
  unfold encodeStatement
  cases statement.body with
  | instruction mnemonic tokens => simp only [encodeInstruction, h mnemonic]
  | blank => rfl
  | comment => rfl
  | labelOnly => rfl
  | nop => rfl

theorem encodeSlot_of_agree (symbols : Symbols) :
    encodeSlot ⟨set, base⟩ symbols = encodeSlot ⟨other, base⟩ symbols := by
  funext statement
  rw [encodeSlot, encodeSlot, encodeStatement_of_agree h]

theorem secondPass_of_agree (lines : List String) :
    secondPass ⟨set, base⟩ lines = secondPass ⟨other, base⟩ lines := by
  simp only [secondPass, encodeAll, encodeSlot_of_agree h]

theorem assemble_of_agree (lines : List String) :
    assemble ⟨set, base⟩ lines = assemble ⟨other, base⟩ lines := by
  rw [assemble_eq_passes, assemble_eq_passes, secondPass_of_agree h]

theorem assembleAll_of_agree (lines : List String) :
    assembleAll ⟨set, base⟩ lines = assembleAll ⟨other, base⟩ lines := by
  rw [assembleAll_eq_passes, assembleAll_eq_passes, secondPass_of_agree h]

end Agree

/-- Definitions in two orders both make a set or both do not. The sets lead every name to the same
definition, and every program assembles with the one as it does with the other. -/
theorem assemble_of_perm {definitions others : List Definition} (hperm : definitions.Perm others) :
    (∃ taken taken', InstructionSet.ofList definitions = .error taken ∧
      InstructionSet.ofList others = .error taken') ∨
    ∃ set other, InstructionSet.ofList definitions = .ok set ∧
      InstructionSet.ofList others = .ok other ∧
      (∀ name, set.find? name = other.find? name) ∧
      ∀ base lines, assemble ⟨set, base⟩ lines = assemble ⟨other, base⟩ lines ∧
        assembleAll ⟨set, base⟩ lines = assembleAll ⟨other, base⟩ lines := by
  have hboth := InstructionSet.exists_ofList_of_perm hperm
  cases hset : InstructionSet.ofList definitions with
  | ok set =>
    obtain ⟨other, hother⟩ := hboth.mp ⟨set, hset⟩
    have hagree := InstructionSet.agree_of_perm hperm hset hother
    exact .inr ⟨set, other, rfl, hother, hagree, fun base lines =>
      ⟨assemble_of_agree hagree base lines, assembleAll_of_agree hagree base lines⟩⟩
  | error taken =>
    cases hother : InstructionSet.ofList others with
    | ok other =>
      obtain ⟨set, hset'⟩ := hboth.mpr ⟨other, hother⟩
      rw [hset] at hset'
      cases hset'
    | error taken' => exact .inl ⟨taken, taken', rfl, rfl⟩

/-- Two definitions that share an opcode. The word of a line is the same in both orders, although it
is decoded as the definition that comes first. -/
theorem assemble_of_perm_shared_opcode :
    ∃ set other,
      InstructionSet.ofList [⟨"mask", .register, 8, 37⟩, ⟨"addi", .immediate, 8, 0⟩] = .ok set ∧
      InstructionSet.ofList [⟨"addi", .immediate, 8, 0⟩, ⟨"mask", .register, 8, 37⟩] = .ok other ∧
      set.decode? 0x21280025 ≠ other.decode? 0x21280025 ∧
      (∀ name, set.find? name = other.find? name) ∧
      ∀ base lines, assemble ⟨set, base⟩ lines = assemble ⟨other, base⟩ lines ∧
        assembleAll ⟨set, base⟩ lines = assembleAll ⟨other, base⟩ lines := by
  obtain ⟨set, other, hset, hother, hdecode⟩ : ∃ set other,
      InstructionSet.ofList [⟨"mask", .register, 8, 37⟩, ⟨"addi", .immediate, 8, 0⟩] = .ok set ∧
      InstructionSet.ofList [⟨"addi", .immediate, 8, 0⟩, ⟨"mask", .register, 8, 37⟩] = .ok other ∧
      set.decode? 0x21280025 ≠ other.decode? 0x21280025 :=
    ⟨_, _, rfl, rfl, by decide⟩
  have hperm : List.Perm [⟨"mask", .register, 8, 37⟩, ⟨"addi", .immediate, 8, 0⟩]
      [(⟨"addi", .immediate, 8, 0⟩ : Definition), ⟨"mask", .register, 8, 37⟩] := .swap ..
  rcases assemble_of_perm hperm with ⟨taken, _, herror, -⟩ | ⟨set', other', hset', hother', hsame⟩
  · rw [hset] at herror
    cases herror
  · rw [hset] at hset'
    rw [hother] at hother'
    cases hset'
    cases hother'
    exact ⟨set, other, hset, hother, hdecode, hsame⟩

end Target

end Mips
