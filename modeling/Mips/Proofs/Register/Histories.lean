import Mathlib.Algebra.Group.Int.Defs
import Mathlib.Algebra.Group.Nat.Defs
import Mips.Proofs.Word.Fields
import Mips.Register.File

/-! # Register files over time

A register file changes by one update after another, from the file before a run on.

* `Update`, `apply`, `run`: the updates, the file after one of them and after a list of them.
* `Reached base file`: some updates lead from the file at a base address to this file. None of them
  moves the base address (`base_of_reached`).
* `jumpTarget`, `jump_cases`: where a jump would lead in unbounded addresses, and what it does. -/

namespace Mips
set_option autoImplicit false

inductive RegisterFile.Update where
  | write (index : Nat) (value : Word)
  | writeName (name : String) (value : Word)
  | setPc (address : Address)
  | setPcSlot (slot : Nat)
  | advance
  | jump (offset : Int)
deriving DecidableEq, Repr

namespace RegisterFile

/-! ## Updates -/

/-- The file after a write, or as it was if the write is refused. -/
def orKeep (file : RegisterFile) : Except RegisterFault RegisterFile → RegisterFile
  | .ok written => written
  | .error _ => file

def apply (file : RegisterFile) : Update → RegisterFile
  | .write index value => file.orKeep (file.write index value)
  | .writeName name value => file.orKeep (file.writeName name value)
  | .setPc address => file.setPc address
  | .setPcSlot slot => file.setPcSlot slot
  | .advance => file.advance
  | .jump offset => (file.jump offset).1

def run (file : RegisterFile) (updates : List Update) : RegisterFile :=
  updates.foldl apply file

/-- A file that updates lead to from the file at a base address. -/
def Reached (base : Address) (file : RegisterFile) : Prop :=
  ∃ updates, (init base).run updates = file

/-! ## The base address -/

@[simp] theorem base_setPc (file : RegisterFile) (address : Address) :
    (file.setPc address).base = file.base := rfl

theorem base_orKeep {file : RegisterFile} {result : Except RegisterFault RegisterFile}
    (h : ∀ written, result = .ok written → written.base = file.base) :
    (file.orKeep result).base = file.base := by
  cases result with
  | ok written => exact h written rfl
  | error fault => rfl

theorem base_of_write {file written : RegisterFile} {index : Nat} {value : Word}
    (h : file.write index value = .ok written) : written.base = file.base := by
  unfold write at h
  split at h
  · rw [← Except.ok.inj h]
  · cases h

theorem base_of_writeName {file written : RegisterFile} {name : String} {value : Word}
    (h : file.writeName name value = .ok written) : written.base = file.base := by
  unfold writeName at h
  split at h
  · next special _ =>
    rw [← Except.ok.inj h]
    cases special <;> rfl
  · cases hresolve : Register.resolve name with
    | ok r =>
      rw [hresolve] at h
      exact base_of_write h
    | error fault =>
      rw [hresolve] at h
      cases h

/-! ## Jumps -/

/-- The target of a jump, before it is taken as an address. -/
def jumpTarget (file : RegisterFile) (offset : Int) : Int :=
  file.pc.toNat + 4 * offset

theorem jump_cases (file : RegisterFile) (offset : Int) :
    (file.jumpTarget offset < file.base.toNat ∧
      file.jump offset = (file.setPc file.base, some (.jumpBelowBase offset file.base))) ∨
    (file.base.toNat ≤ file.jumpTarget offset ∧
      file.jump offset = (file.setPc (BitVec.ofInt 32 (file.jumpTarget offset)), none)) := by
  unfold jump jumpTarget
  by_cases hbelow : (file.pc.toNat : Int) + 4 * offset < file.base.toNat
  · exact .inl ⟨hbelow, if_pos hbelow⟩
  · exact .inr ⟨by omega, if_neg hbelow⟩

theorem base_apply (file : RegisterFile) (update : Update) :
    (file.apply update).base = file.base := by
  cases update with
  | write index value => exact base_orKeep fun _ => base_of_write
  | writeName name value => exact base_orKeep fun _ => base_of_writeName
  | setPc address => rfl
  | setPcSlot slot => rfl
  | advance => rfl
  | jump offset =>
    show (file.jump offset).1.base = file.base
    obtain ⟨-, hjump⟩ | ⟨-, hjump⟩ := file.jump_cases offset <;> rw [hjump, base_setPc]

/-- What one update keeps, a list of updates keeps. -/
theorem base_run (file : RegisterFile) (updates : List Update) :
    (file.run updates).base = file.base := by
  induction updates generalizing file with
  | nil => rfl
  | cons update updates ih => exact (ih (file.apply update)).trans (file.base_apply update)

theorem base_of_reached {base : Address} {file : RegisterFile} (h : Reached base file) :
    file.base = base := by
  obtain ⟨updates, rfl⟩ := h
  exact base_run (init base) updates

/-- A jump leaves the counter at or above the base exactly if its target is not past the last
address, or comes round to the base again. Below the base it stops at the base and is reported;
past the last address it goes on from zero, and nothing is reported. -/
theorem base_le_pc_jump_iff {base : Address} {file : RegisterFile} (h : Reached base file)
    (offset : Int) :
    (base ≤ (file.jump offset).1.pc ↔
      file.jumpTarget offset < 2 ^ 32 ∨ (base.toNat : Int) ≤ file.jumpTarget offset % 2 ^ 32) ∧
    (file.jumpTarget offset < base.toNat →
      (file.jump offset).2 = some (.jumpBelowBase offset base) ∧
        (file.jump offset).1.pc = base) ∧
    ((base.toNat : Int) ≤ file.jumpTarget offset →
      (file.jump offset).2 = none ∧
        ((file.jump offset).1.pc.toNat : Int) = file.jumpTarget offset % 2 ^ 32) := by
  have hbase := base.isLt
  obtain ⟨hbelow, hjump⟩ | ⟨habove, hjump⟩ := file.jump_cases offset
  · rw [base_of_reached h] at hbelow hjump
    rw [hjump]
    refine ⟨?_, fun _ => ⟨rfl, rfl⟩, fun _ => by omega⟩
    have hpc : base ≤ (file.setPc base).pc := BitVec.le_refl base
    simp only [hpc, true_iff]
    omega
  · rw [base_of_reached h] at habove
    have hpc : ((file.jump offset).1.pc.toNat : Int) = file.jumpTarget offset % 2 ^ 32 := by
      rw [hjump]
      exact toNat_ofInt 32 _
    refine ⟨?_, fun _ => by omega, fun _ => ⟨by rw [hjump], hpc⟩⟩
    rw [BitVec.le_def]
    omega

/-- From the third slot, three slots back are refused. -/
theorem base_le_pc_jump_back :
    let file := (init 0x00400000).run [.setPcSlot 2]
    Reached 0x00400000 file ∧ file.jumpTarget (-3) < (0x00400000 : Address).toNat ∧
      (file.jump (-3)).2 = some (.jumpBelowBase (-3) 0x00400000) ∧
      (file.jump (-3)).1.pc = 0x00400000 := by
  intro file
  have hreached : Reached 0x00400000 file := ⟨_, rfl⟩
  have hbelow : file.jumpTarget (-3) < (0x00400000 : Address).toNat := by decide
  exact ⟨hreached, hbelow, (base_le_pc_jump_iff hreached (-3)).2.1 hbelow⟩

/-- One slot on from the last slot of the address space leads to zero, and is not reported. -/
theorem pc_lt_base_of_jump_past_end :
    ∃ file, Reached 0x00400000 file ∧ 0x00400000 ≤ file.pc ∧
      (file.jump 1).2 = none ∧ (file.jump 1).1.pc < 0x00400000 :=
  ⟨_, ⟨[.setPc 0xFFFFFFFC], rfl⟩, by decide, rfl, by decide⟩

end RegisterFile

end Mips
