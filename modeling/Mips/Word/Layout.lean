/-! # Instruction words

A word has 32 bits, and an address is a word. The three layouts of an instruction word are
concatenations of fields from the highest bit down:

* `ofRegisterFields`: opcode, rs, rt, rd, shift amount, function code;
* `ofImmediateFields`: opcode, rs, rt, immediate;
* `ofJumpFields`: opcode, four zero bits, jump target.

`Fields.ofWord` reads every field of every layout at once. -/

namespace Mips
set_option autoImplicit false

abbrev Byte := BitVec 8

abbrev Word := BitVec 32

abbrev Address := BitVec 32

/-- The address of a slot: each slot takes four bytes, and addresses wrap around. -/
def slotAddress (base : Address) (slot : Nat) : Address :=
  base + 4 * BitVec.ofNat 32 slot

namespace Word

/-! ## Layouts -/

def ofRegisterFields (opcode : BitVec 6) (rs rt rd shamt : BitVec 5) (funct : BitVec 6) : Word :=
  opcode ++ rs ++ rt ++ rd ++ shamt ++ funct

def ofImmediateFields (opcode : BitVec 6) (rs rt : BitVec 5) (immediate : BitVec 16) : Word :=
  opcode ++ rs ++ rt ++ immediate

def ofJumpFields (opcode : BitVec 6) (target : BitVec 22) : Word :=
  opcode ++ (0 : BitVec 4) ++ target

theorem toNat_ofRegisterFields (opcode : BitVec 6) (rs rt rd shamt : BitVec 5)
    (funct : BitVec 6) :
    (ofRegisterFields opcode rs rt rd shamt funct).toNat =
      opcode.toNat * 0x4000000 + rs.toNat * 0x200000 + rt.toNat * 0x10000 + rd.toNat * 0x800 +
        shamt.toNat * 0x40 + funct.toNat := by
  simp only [ofRegisterFields, BitVec.toNat_append]
  rw [← Nat.shiftLeft_add_eq_or_of_lt rs.isLt, ← Nat.shiftLeft_add_eq_or_of_lt rt.isLt,
    ← Nat.shiftLeft_add_eq_or_of_lt rd.isLt, ← Nat.shiftLeft_add_eq_or_of_lt shamt.isLt,
    ← Nat.shiftLeft_add_eq_or_of_lt funct.isLt]
  simp only [Nat.shiftLeft_eq]
  omega

theorem toNat_ofImmediateFields (opcode : BitVec 6) (rs rt : BitVec 5) (immediate : BitVec 16) :
    (ofImmediateFields opcode rs rt immediate).toNat =
      opcode.toNat * 0x4000000 + rs.toNat * 0x200000 + rt.toNat * 0x10000 + immediate.toNat := by
  simp only [ofImmediateFields, BitVec.toNat_append]
  rw [← Nat.shiftLeft_add_eq_or_of_lt rs.isLt, ← Nat.shiftLeft_add_eq_or_of_lt rt.isLt,
    ← Nat.shiftLeft_add_eq_or_of_lt immediate.isLt]
  simp only [Nat.shiftLeft_eq]
  omega

theorem toNat_ofJumpFields (opcode : BitVec 6) (target : BitVec 22) :
    (ofJumpFields opcode target).toNat = opcode.toNat * 0x4000000 + target.toNat := by
  simp only [ofJumpFields, BitVec.toNat_append]
  rw [← Nat.shiftLeft_add_eq_or_of_lt (0 : BitVec 4).isLt,
    ← Nat.shiftLeft_add_eq_or_of_lt target.isLt]
  simp only [Nat.shiftLeft_eq]
  have hzero : (0 : BitVec 4).toNat = 0 := rfl
  rw [hzero]
  omega

end Word

/-! ## Fields -/

/-- The fields of a word under all three layouts. Each register number and code takes a byte. -/
structure Fields where
  opcode : Byte
  rs : Byte
  rt : Byte
  rd : Byte
  shamt : Byte
  funct : Byte
  immediate : BitVec 16
  target : BitVec 32
deriving DecidableEq, Repr

namespace Fields

def ofWord (word : Word) : Fields where
  opcode := (word.extractLsb' 26 6).setWidth 8
  rs := (word.extractLsb' 21 5).setWidth 8
  rt := (word.extractLsb' 16 5).setWidth 8
  rd := (word.extractLsb' 11 5).setWidth 8
  shamt := (word.extractLsb' 6 5).setWidth 8
  funct := (word.extractLsb' 0 6).setWidth 8
  immediate := word.extractLsb' 0 16
  target := (word.extractLsb' 0 22).setWidth 32

/-- The immediate as a two's complement number. -/
def signedImmediate (fields : Fields) : Int :=
  fields.immediate.toInt

/-- Where a branch at an address goes: its immediate counts slots from the one after it. -/
def branchTarget (fields : Fields) (address : Address) : Address :=
  address + 4 + 4 * fields.immediate.signExtend 32

/-- Where a jump goes: its target counts words. -/
def jumpTarget (fields : Fields) : Address :=
  fields.target <<< 2

end Fields

end Mips
