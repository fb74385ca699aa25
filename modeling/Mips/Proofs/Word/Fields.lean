import Mathlib.Algebra.Group.Int.Defs
import Mathlib.Algebra.Group.Nat.Defs
import Mips.Operation.Encoding

/-! # Fields of laid out words

* `toNat_ofInt`: an integer that is cut to a number of bits.
* `slotAddress_slotAddress`, `slotAddress_injective`: slots counted from another slot, and no two
  slots of an address space with the same address. `toNat_slotAddress_sub` is the way back.
* `ofWord_ofRegisterFields`, `ofWord_ofImmediateFields`, `ofWord_ofJumpFields`: the fields of a word
  are those it was laid out from, and `toNat_ofRegisterFields` and so on say it in numbers.
* `branchTarget_of_signedImmediate`, `toNat_jumpTarget`: where the numbers in the fields of a branch
  and of a jump lead. A jump cannot lead into the middle of a word (`jumpTarget_eq_iff`). -/

namespace Mips
set_option autoImplicit false

/-! ## Integers cut to a width -/

theorem toNat_ofInt (width : Nat) (value : Int) :
    ((BitVec.ofInt width value).toNat : Int) = value % 2 ^ width := by
  have hpositive : (0 : Int) < 2 ^ width := Int.pow_pos (by decide)
  have hpower : ((2 ^ width : Nat) : Int) = 2 ^ width := by simp
  rw [BitVec.toNat_ofInt, hpower]
  exact Int.toNat_of_nonneg (Int.emod_nonneg value (by omega))

/-! ## Addresses of slots -/

theorem slotAddress_eq_add (base : Address) (slot : Nat) :
    slotAddress base slot = base + BitVec.ofNat 32 (4 * slot) := by
  rw [slotAddress, BitVec.ofNat_mul]
  rfl

theorem slotAddress_slotAddress (base : Address) (k slot : Nat) :
    slotAddress (slotAddress base k) slot = slotAddress base (slot + k) := by
  have hsum : 4 * k + 4 * slot = 4 * (slot + k) := by omega
  rw [slotAddress_eq_add, slotAddress_eq_add, slotAddress_eq_add, BitVec.add_assoc,
    ← BitVec.ofNat_add, hsum]

theorem toNat_slotAddress (base : Address) (slot : Nat) :
    (slotAddress base slot).toNat = (base.toNat + 4 * slot) % 2 ^ 32 := by
  simp only [slotAddress, BitVec.toNat_add, BitVec.toNat_mul, BitVec.ofNat_eq_ofNat,
    BitVec.toNat_ofNat]
  omega

theorem slotAddress_injective (base : Address) (i j : Nat) (hi : i < 2 ^ 30) (hj : j < 2 ^ 30)
    (h : slotAddress base i = slotAddress base j) : i = j := by
  rw [← BitVec.toNat_inj, toNat_slotAddress, toNat_slotAddress] at h
  omega

theorem slotAddress_mod (base : Address) (slot : Nat) :
    slotAddress base (slot % 2 ^ 30) = slotAddress base slot := by
  apply BitVec.eq_of_toNat_eq
  rw [toNat_slotAddress, toNat_slotAddress]
  omega

theorem toNat_slotAddress_sub (base : Address) (slot : Nat) :
    (slotAddress base slot - base).toNat = 4 * (slot % 2 ^ 30) := by
  have hbase := base.isLt
  rw [BitVec.toNat_sub, toNat_slotAddress]
  omega

theorem slotAddress_of_toNat_sub {base address : Address} {slot : Nat}
    (h : (address - base).toNat = 4 * slot) : slotAddress base slot = address := by
  have hbase := base.isLt
  have haddress := address.isLt
  apply BitVec.eq_of_toNat_eq
  rw [BitVec.toNat_sub] at h
  rw [toNat_slotAddress]
  omega

theorem slotAddress_sub_slotAddress (base base' : Address) (slot : Nat) :
    slotAddress base slot - slotAddress base' slot = base - base' := by
  apply BitVec.eq_of_toNat_eq
  rw [BitVec.toNat_sub, BitVec.toNat_sub, toNat_slotAddress, toNat_slotAddress]
  omega

/-- The addresses of all slots have the remainder of the base address. -/
theorem slotAddress_mod_four (base : Address) (slot : Nat) :
    (slotAddress base slot).toNat % 4 = base.toNat % 4 := by
  rw [toNat_slotAddress]
  omega

namespace Fields

/-! ## Layouts -/

section Layouts
variable (opcode funct : BitVec 6) (rs rt rd shamt : BitVec 5) (immediate : BitVec 16)
  (target : BitVec 22)

theorem ofWord_ofRegisterFields :
    let fields := ofWord (Word.ofRegisterFields opcode rs rt rd shamt funct)
    fields.opcode = opcode.setWidth 8 ∧ fields.rs = rs.setWidth 8 ∧ fields.rt = rt.setWidth 8 ∧
      fields.rd = rd.setWidth 8 ∧ fields.shamt = shamt.setWidth 8 ∧
      fields.funct = funct.setWidth 8 := by
  simp only [ofWord, ← BitVec.toNat_inj, BitVec.toNat_setWidth, BitVec.extractLsb'_toNat,
    Nat.shiftRight_eq_div_pow, Word.toNat_ofRegisterFields]
  omega

theorem ofWord_ofImmediateFields :
    let fields := ofWord (Word.ofImmediateFields opcode rs rt immediate)
    fields.opcode = opcode.setWidth 8 ∧ fields.rs = rs.setWidth 8 ∧ fields.rt = rt.setWidth 8 ∧
      fields.immediate = immediate := by
  simp only [ofWord, ← BitVec.toNat_inj, BitVec.toNat_setWidth, BitVec.extractLsb'_toNat,
    Nat.shiftRight_eq_div_pow, Word.toNat_ofImmediateFields]
  omega

theorem ofWord_ofJumpFields :
    let fields := ofWord (Word.ofJumpFields opcode target)
    fields.opcode = opcode.setWidth 8 ∧ fields.target = target.setWidth 32 := by
  simp only [ofWord, ← BitVec.toNat_inj, BitVec.toNat_setWidth, BitVec.extractLsb'_toNat,
    Nat.shiftRight_eq_div_pow, Word.toNat_ofJumpFields]
  omega

theorem toNat_ofRegisterFields :
    let fields := ofWord (Word.ofRegisterFields opcode rs rt rd shamt funct)
    fields.opcode.toNat = opcode.toNat ∧ fields.rs.toNat = rs.toNat ∧
      fields.rt.toNat = rt.toNat ∧ fields.rd.toNat = rd.toNat ∧
      fields.shamt.toNat = shamt.toNat ∧ fields.funct.toNat = funct.toNat := by
  simp only [ofWord_ofRegisterFields, BitVec.toNat_setWidth]
  omega

theorem toNat_ofImmediateFields :
    let fields := ofWord (Word.ofImmediateFields opcode rs rt immediate)
    fields.opcode.toNat = opcode.toNat ∧ fields.rs.toNat = rs.toNat ∧
      fields.rt.toNat = rt.toNat ∧ fields.immediate.toNat = immediate.toNat := by
  simp only [ofWord_ofImmediateFields, BitVec.toNat_setWidth, and_true]
  omega

theorem toNat_ofJumpFields :
    let fields := ofWord (Word.ofJumpFields opcode target)
    fields.opcode.toNat = opcode.toNat ∧ fields.target.toNat = target.toNat := by
  simp only [ofWord_ofJumpFields, BitVec.toNat_setWidth]
  omega

/-- Above the target of a jump there are four bits that no field uses, and then the opcode. -/
theorem extractLsb'_ofJumpFields :
    (Word.ofJumpFields opcode target).extractLsb' 22 10 = opcode ++ (0 : BitVec 4) := by
  apply BitVec.eq_of_toNat_eq
  have hlt := target.isLt
  have hzero : (0 : BitVec 4).toNat = 0 := rfl
  rw [BitVec.extractLsb'_toNat, Nat.shiftRight_eq_div_pow, Word.toNat_ofJumpFields,
    BitVec.toNat_append, hzero, Nat.or_zero, Nat.shiftLeft_eq]
  omega

theorem extractLsb'_ofJumpFields_unused :
    (Word.ofJumpFields opcode target).extractLsb' 22 4 = 0 := by
  apply BitVec.eq_of_toNat_eq
  have hlt := target.isLt
  have hzero : (0 : BitVec 4).toNat = 0 := rfl
  rw [BitVec.extractLsb'_toNat, Nat.shiftRight_eq_div_pow, Word.toNat_ofJumpFields]
  omega

end Layouts

/-! ## Targets -/

theorem signedImmediate_cases (fields : Fields) :
    (fields.immediate.toNat < 2 ^ 15 ∧ fields.signedImmediate = fields.immediate.toNat) ∨
    (2 ^ 15 ≤ fields.immediate.toNat ∧ fields.immediate.toNat < 2 ^ 16 ∧
      fields.signedImmediate = (fields.immediate.toNat : Int) - 2 ^ 16) := by
  have hlt := fields.immediate.isLt
  rw [signedImmediate, BitVec.toInt_eq_toNat_cond]
  split <;> omega

theorem branchTarget_of_signedImmediate (fields : Fields) (base : Address) (slot target : Nat)
    (h : fields.signedImmediate = (target : Int) - slot - 1) :
    fields.branchTarget (slotAddress base slot) = slotAddress base target := by
  rw [signedImmediate] at h
  rw [branchTarget, BitVec.signExtend, h]
  apply BitVec.eq_of_toNat_eq
  simp only [BitVec.toNat_add, BitVec.toNat_mul, BitVec.toNat_ofInt, BitVec.ofNat_eq_ofNat,
    BitVec.toNat_ofNat, toNat_slotAddress]
  omega

/-- A jump leads to the first byte of the word that its address lies in. -/
theorem toNat_jumpTarget (fields : Fields) (address : Address)
    (htarget : fields.target.toNat = address.toNat / 4) :
    fields.jumpTarget.toNat = address.toNat / 4 * 4 := by
  have hlt := address.isLt
  rw [jumpTarget, BitVec.toNat_shiftLeft, htarget, Nat.shiftLeft_eq]
  omega

theorem jumpTarget_eq_iff (fields : Fields) (address : Address)
    (htarget : fields.target.toNat = address.toNat / 4) :
    fields.jumpTarget = address ↔ address.toNat % 4 = 0 := by
  rw [← BitVec.toNat_inj, toNat_jumpTarget fields address htarget]
  omega

end Fields

end Mips
