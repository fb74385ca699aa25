import Mathlib.Algebra.Group.Int.Defs
import Mips.Proofs.Operation.Reading
import Mips.Proofs.Word.Fields

/-! # Operands in the fields of a word

A word holds the operands of its operation as numbers, each cut to the width of its field.

* `Operation.HeldBy d base slot word`: what the fields of a word show of an operation.
* `Operation.Overflows base slot`: the operands outside the range of their field, by the field.
* `Operation.LastOperandKept base slot fields`: the last operand can be told from the fields.
* `Operation.signedImmediate_of_branch`, `Operation.target_of_jump`: the field of a target that was
  not cut.
* `Target.fields_of_encodeStatement`: the word of a line holds the operands that its tokens stand
  for, and a field is named as too narrow exactly if its operand overflows, which is if that operand
  cannot be told from the word. -/

namespace Mips
set_option autoImplicit false

/-! ## Codes and addresses -/

theorem toNat_setWidth_six (code : Byte) : (code.setWidth 6).toNat = code.toNat % 64 :=
  BitVec.toNat_setWidth ..

theorem toNat_wordAddress (address : Address) :
    ((address >>> 2).setWidth 22).toNat = address.toNat / 4 % 2 ^ 22 := by
  rw [BitVec.toNat_setWidth, BitVec.toNat_ushiftRight, Nat.shiftRight_eq_div_pow]

namespace Definition

theorem funct_lt_of_shape {d : Definition} (h : d.shape = .jumpRegister ∨ d.shape = .shift) :
    d.funct.toNat < 64 := by
  have hfunct : d.funct = 0x08 ∨ d.funct = 0x09 ∨ d.funct = 0x00 ∨ d.funct = 0x02 := by
    unfold shape at h
    split at h
    · grind [linkFunct]
    · grind
    · grind
  rcases hfunct with hcode | hcode | hcode | hcode <;> rw [hcode] <;> decide

theorem toNat_link (d : Definition) :
    (if d.funct = linkFunct then Register.returnAddress else 0).toNat =
      if d.funct.toNat = 9 then 31 else 0 := by
  have hlink : d.funct = linkFunct ↔ d.funct.toNat = 9 := BitVec.toNat_inj.symm
  simp only [hlink]
  split <;> rfl

end Definition

namespace Operation

/-! ## What a word holds -/

/-- The fields of a word show the codes of a definition and the operands of an operation: registers
by their numbers, and literals, branch offsets and jump targets by what is left of them. -/
def HeldBy (d : Definition) (base : Address) (slot : Nat) (word : Word) (operation : Operation) :
    Prop :=
  let fields := Fields.ofWord word
  fields.opcode.toNat = d.opcode.toNat % 64 ∧
  match operation with
  | .jumpRegister target =>
    fields.rs.toNat = target.toNat ∧ fields.rt.toNat = 0 ∧
      fields.rd.toNat = (if d.funct.toNat = 9 then 31 else 0) ∧ fields.shamt.toNat = 0 ∧
      fields.funct = d.funct
  | .shift rd rt amount =>
    fields.rs.toNat = 0 ∧ fields.rt.toNat = rt.toNat ∧ fields.rd.toNat = rd.toNat ∧
      (fields.shamt.toNat : Int) = amount % 32 ∧ fields.funct = d.funct
  | .arithmetic rd rs rt =>
    fields.rs.toNat = rs.toNat ∧ fields.rt.toNat = rt.toNat ∧ fields.rd.toNat = rd.toNat ∧
      fields.shamt.toNat = 0 ∧ fields.funct.toNat = d.funct.toNat % 64
  | .branchEqual rs rt target =>
    fields.rs.toNat = rs.toNat ∧ fields.rt.toNat = rt.toNat ∧
      (fields.immediate.toNat : Int) = ((target : Int) - slot - 1) % 2 ^ 16
  | .branchCompare rs target =>
    fields.rs.toNat = rs.toNat ∧ fields.rt.toNat = 0 ∧
      (fields.immediate.toNat : Int) = ((target : Int) - slot - 1) % 2 ^ 16
  | .immediate rt rs value =>
    fields.rs.toNat = rs.toNat ∧ fields.rt.toNat = rt.toNat ∧
      (fields.immediate.toNat : Int) = value % 2 ^ 16
  | .jump target =>
    word.extractLsb' 22 4 = 0 ∧
      fields.target.toNat = (slotAddress base target).toNat / 4 % 2 ^ 22

theorem heldBy_encode {d : Definition} (base : Address) (slot : Nat) {operation : Operation}
    (hshape : operation.shape = d.shape) :
    operation.HeldBy d base slot (operation.encode d base slot).word := by
  have hsix := toNat_setWidth_six d.opcode
  -- The function codes of these two shapes have six bits, so that none is lost.
  have hkept (fields : Fields) (h : d.shape = .jumpRegister ∨ d.shape = .shift)
      (hfunct : fields.funct.toNat = (d.funct.setWidth 6).toNat) : fields.funct = d.funct := by
    have hlt := Definition.funct_lt_of_shape h
    rw [toNat_setWidth_six, Nat.mod_eq_of_lt hlt] at hfunct
    exact BitVec.eq_of_toNat_eq hfunct
  cases operation with
  | jumpRegister target =>
    obtain ⟨hopcode, hrs, hrt, hrd, hshamt, hfunct⟩ := Fields.toNat_ofRegisterFields
      (d.opcode.setWidth 6) (d.funct.setWidth 6) target 0
      (if d.funct = Definition.linkFunct then Register.returnAddress else 0) 0
    exact ⟨hopcode.trans hsix, hrs, hrt, hrd.trans d.toNat_link, hshamt,
      hkept _ (.inl hshape.symm) hfunct⟩
  | shift rd rt amount =>
    obtain ⟨hopcode, hrs, hrt, hrd, hshamt, hfunct⟩ := Fields.toNat_ofRegisterFields
      (d.opcode.setWidth 6) (d.funct.setWidth 6) 0 rt rd (BitVec.ofInt 5 amount)
    have hamount := toNat_ofInt 5 amount
    rw [← hshamt] at hamount
    exact ⟨hopcode.trans hsix, hrs, hrt, hrd, hamount, hkept _ (.inr hshape.symm) hfunct⟩
  | arithmetic rd rs rt =>
    obtain ⟨hopcode, hrs, hrt, hrd, hshamt, hfunct⟩ := Fields.toNat_ofRegisterFields
      (d.opcode.setWidth 6) (d.funct.setWidth 6) rs rt rd 0
    exact ⟨hopcode.trans hsix, hrs, hrt, hrd, hshamt, hfunct.trans (toNat_setWidth_six d.funct)⟩
  | branchEqual rs rt target =>
    obtain ⟨hopcode, hrs, hrt, himmediate⟩ := Fields.toNat_ofImmediateFields
      (d.opcode.setWidth 6) rs rt (BitVec.ofInt 16 (branchOffset slot target))
    have hoffset := toNat_ofInt 16 (branchOffset slot target)
    rw [← himmediate] at hoffset
    exact ⟨hopcode.trans hsix, hrs, hrt, hoffset⟩
  | branchCompare rs target =>
    obtain ⟨hopcode, hrs, hrt, himmediate⟩ := Fields.toNat_ofImmediateFields
      (d.opcode.setWidth 6) rs 0 (BitVec.ofInt 16 (branchOffset slot target))
    have hoffset := toNat_ofInt 16 (branchOffset slot target)
    rw [← himmediate] at hoffset
    exact ⟨hopcode.trans hsix, hrs, hrt, hoffset⟩
  | immediate rt rs value =>
    obtain ⟨hopcode, hrs, hrt, himmediate⟩ := Fields.toNat_ofImmediateFields
      (d.opcode.setWidth 6) rs rt (BitVec.ofInt 16 value)
    have hvalue := toNat_ofInt 16 value
    rw [← himmediate] at hvalue
    exact ⟨hopcode.trans hsix, hrs, hrt, hvalue⟩
  | jump target =>
    obtain ⟨hopcode, htarget⟩ := Fields.toNat_ofJumpFields
      (d.opcode.setWidth 6) ((slotAddress base target >>> 2).setWidth 22)
    exact ⟨hopcode.trans hsix, Fields.extractLsb'_ofJumpFields_unused _ _,
      htarget.trans (toNat_wordAddress _)⟩

end Operation

/-! ## What a word loses -/

namespace NarrowField
variable (field other : NarrowField) (lo hi value : Int)

theorem unlessWithin_eq_none_iff :
    field.unlessWithin lo hi value = none ↔ lo ≤ value ∧ value ≤ hi := by
  simp [unlessWithin]

theorem unlessWithin_ne_some_iff :
    field.unlessWithin lo hi value ≠ some field ↔ field.unlessWithin lo hi value = none := by
  unfold unlessWithin
  split <;> simp

theorem unlessWithin_eq_some_iff :
    field.unlessWithin lo hi value = some other ↔ other = field ∧ (value < lo ∨ hi < value) := by
  unfold unlessWithin
  split
  · simp only [reduceCtorEq, false_iff]
    omega
  · have hout : value < lo ∨ hi < value := by omega
    simp only [Option.some.injEq, hout, and_true, eq_comm]

end NarrowField

/-- The field that can be too narrow for the last operand, for the shapes that have one. -/
def Shape.narrowField? : Shape → Option NarrowField
  | .jumpRegister | .arithmetic => none
  | .shift => some .shamt
  | .immediate => some .immediate
  | .branchEqual | .branchCompare => some .branchOffset
  | .jump => some .jumpTarget

namespace Operation

/-- The last operand lies outside the range of its field. -/
def Overflows (base : Address) (slot : Nat) (field : NarrowField) : Operation → Prop
  | .jumpRegister _ | .arithmetic _ _ _ => False
  | .shift _ _ amount => field = .shamt ∧ (amount < 0 ∨ 31 < amount)
  | .immediate _ _ value => field = .immediate ∧ (value < -32768 ∨ 65535 < value)
  | .branchEqual _ _ target | .branchCompare _ target =>
    field = .branchOffset ∧ ((target : Int) - slot - 1 < -32768 ∨ 32767 < (target : Int) - slot - 1)
  | .jump target => field = .jumpTarget ∧ 2 ^ 22 ≤ (slotAddress base target).toNat / 4

theorem truncated_encode_eq_some_iff (d : Definition) (base : Address) (slot : Nat)
    (operation : Operation) (field : NarrowField) :
    (operation.encode d base slot).truncated = some field ↔ operation.Overflows base slot field := by
  cases operation with
  | jumpRegister target => simp [encode, Overflows]
  | arithmetic rd rs rt => simp [encode, Overflows]
  | shift rd rt amount => exact NarrowField.unlessWithin_eq_some_iff ..
  | immediate rt rs value => exact NarrowField.unlessWithin_eq_some_iff ..
  | branchEqual rs rt target => exact NarrowField.unlessWithin_eq_some_iff ..
  | branchCompare rs target => exact NarrowField.unlessWithin_eq_some_iff ..
  | jump target =>
    rw [encode, NarrowField.unlessWithin_eq_some_iff, BitVec.toNat_ushiftRight,
      Nat.shiftRight_eq_div_pow, Overflows]
    refine and_congr_right fun _ => ?_
    omega

/-- No other field than that of the shape is named. -/
theorem truncated_encode_eq_none {d : Definition} {base : Address} {slot : Nat}
    {operation : Operation}
    (h : (operation.encode d base slot).truncated ≠ operation.shape.narrowField?) :
    (operation.encode d base slot).truncated = none := by
  cases operation with
  | jumpRegister target => rfl
  | arithmetic rd rs rt => rfl
  | shift rd rt amount => exact (NarrowField.unlessWithin_ne_some_iff ..).mp h
  | immediate rt rs value => exact (NarrowField.unlessWithin_ne_some_iff ..).mp h
  | branchEqual rs rt target => exact (NarrowField.unlessWithin_ne_some_iff ..).mp h
  | branchCompare rs target => exact (NarrowField.unlessWithin_ne_some_iff ..).mp h
  | jump target => exact (NarrowField.unlessWithin_ne_some_iff ..).mp h

/-- The last operand can be told from the fields: a shift amount as it stands, an immediate as it
stands or in two's complement, a branch offset in two's complement, and a jump target by the word
that it lies in. -/
def LastOperandKept (base : Address) (slot : Nat) (fields : Fields) : Operation → Prop
  | .jumpRegister _ | .arithmetic _ _ _ => True
  | .shift _ _ amount => fields.shamt.toNat = amount
  | .immediate _ _ value => fields.immediate.toNat = value ∨ fields.signedImmediate = value
  | .branchEqual _ _ target | .branchCompare _ target =>
    fields.signedImmediate = (target : Int) - slot - 1
  | .jump target => fields.target.toNat = (slotAddress base target).toNat / 4

theorem lastOperandKept_iff {d : Definition} {base : Address} {slot : Nat} {word : Word}
    {operation : Operation} (h : operation.HeldBy d base slot word) :
    operation.LastOperandKept base slot (Fields.ofWord word) ↔
      ∀ field, ¬ operation.Overflows base slot field := by
  cases operation with
  | jumpRegister target => simp [LastOperandKept, Overflows]
  | arithmetic rd rs rt => simp [LastOperandKept, Overflows]
  | shift rd rt amount =>
    obtain ⟨-, -, -, -, hshamt, -⟩ := h
    simp only [LastOperandKept, Overflows, not_and, forall_eq]
    omega
  | immediate rt rs value =>
    obtain ⟨-, -, -, himmediate⟩ := h
    have hsigned := (Fields.ofWord word).signedImmediate_cases
    simp only [LastOperandKept, Overflows, not_and, forall_eq]
    omega
  | branchEqual rs rt target =>
    obtain ⟨-, -, -, himmediate⟩ := h
    have hsigned := (Fields.ofWord word).signedImmediate_cases
    simp only [LastOperandKept, Overflows, not_and, forall_eq]
    omega
  | branchCompare rs target =>
    obtain ⟨-, -, -, himmediate⟩ := h
    have hsigned := (Fields.ofWord word).signedImmediate_cases
    simp only [LastOperandKept, Overflows, not_and, forall_eq]
    omega
  | jump target =>
    obtain ⟨-, -, htarget⟩ := h
    simp only [LastOperandKept, Overflows, not_and, forall_eq]
    omega

theorem lastOperandKept_encode {d : Definition} {base : Address} {slot : Nat}
    {operation : Operation} (hshape : operation.shape = d.shape) :
    (operation.encode d base slot).truncated = none ↔
      operation.LastOperandKept base slot
        (Fields.ofWord (operation.encode d base slot).word) := by
  rw [lastOperandKept_iff (heldBy_encode base slot hshape), Option.eq_none_iff_forall_ne_some]
  simp only [ne_eq, truncated_encode_eq_some_iff]

/-! ## Targets -/

section Targets
variable {d : Definition} {base : Address} {slot place : Nat} {operation : Operation}

theorem signedImmediate_of_branch
    (hbranch : d.shape = .branchEqual ∨ d.shape = .branchCompare)
    (hshape : operation.shape = d.shape) (hplace : operation.target? = some place)
    (hfits : (operation.encode d base slot).truncated ≠ some .branchOffset) :
    (Fields.ofWord (operation.encode d base slot).word).signedImmediate =
      (place : Int) - slot - 1 := by
  have hfield : operation.shape.narrowField? = some .branchOffset := by
    rcases hbranch with h | h <;> rw [hshape, h] <;> rfl
  rw [← hfield] at hfits
  have hkept := (lastOperandKept_encode hshape).mp (truncated_encode_eq_none hfits)
  cases operation with
  | branchEqual rs rt target =>
    cases hplace
    exact hkept
  | branchCompare rs target =>
    cases hplace
    exact hkept
  | jump target => cases hfield
  | jumpRegister _ => cases hplace
  | shift _ _ _ => cases hplace
  | arithmetic _ _ _ => cases hplace
  | immediate _ _ _ => cases hplace

theorem target_of_jump (hjump : d.shape = .jump) (hshape : operation.shape = d.shape)
    (hplace : operation.target? = some place)
    (hfits : (operation.encode d base slot).truncated ≠ some .jumpTarget) :
    (Fields.ofWord (operation.encode d base slot).word).target.toNat =
      (slotAddress base place).toNat / 4 := by
  have hfield : operation.shape.narrowField? = some .jumpTarget := by
    rw [hshape, hjump]
    rfl
  rw [← hfield] at hfits
  have hkept := (lastOperandKept_encode hshape).mp (truncated_encode_eq_none hfits)
  cases operation with
  | jump target =>
    cases hplace
    exact hkept
  | branchEqual _ _ _ => cases hfield
  | branchCompare _ _ => cases hfield
  | jumpRegister _ => cases hplace
  | shift _ _ _ => cases hplace
  | arithmetic _ _ _ => cases hplace
  | immediate _ _ _ => cases hplace

end Targets

end Operation

/-! ## Lines -/

namespace Target

/-- The word of an instruction line holds the operands that the tokens of the line stand for. The
encoding names a field as too narrow exactly if the operand for it overflows, and it names none
exactly if all operands can be told from the word. -/
theorem fields_of_encodeStatement (target : Target) (symbols : Symbols) (statement : Statement)
    (mnemonic : String) (tokens : List String) (encoding : Encoding)
    (hbody : statement.body = .instruction mnemonic tokens)
    (hencode : target.encodeStatement symbols statement = .ok encoding) :
    ∃ (d : Definition) (operation : Operation),
      target.instructions.find? mnemonic = some d ∧ operation.shape = d.shape ∧
      operation.ReadFrom symbols tokens ∧
      operation.HeldBy d target.base statement.slot encoding.word ∧
      (∀ field, encoding.truncated = some field ↔
        operation.Overflows target.base statement.slot field) ∧
      (encoding.truncated = none ↔
        operation.LastOperandKept target.base statement.slot (Fields.ofWord encoding.word)) := by
  rw [encodeStatement_eq_ok_iff] at hencode
  obtain ⟨hfiller, -⟩ | ⟨_, _, d, operation, hbody', hfind, hshape, hread, rfl⟩ := hencode
  · simp [Statement.isFiller, hbody] at hfiller
  · rw [hbody] at hbody'
    cases hbody'
    exact ⟨d, operation, hfind, hshape, hread, Operation.heldBy_encode _ _ hshape,
      operation.truncated_encode_eq_some_iff d _ _, Operation.lastOperandKept_encode hshape⟩

/-- An opcode above the six bits of its field, which is an immediate shape although its low bits are
those of a branch, and a literal below the range. -/
theorem fields_of_encodeStatement_wide_opcode :
    ∃ set, InstructionSet.ofList [⟨"addx", .immediate, 0xC4, 0xFF⟩] = .ok set ∧
      encodeStatement ⟨set, 0⟩ .empty (Statement.parse 7 "addx $t0, $t1, -40000") =
        .ok ⟨0x112863C0, some .immediate⟩ ∧
      ∃ (d : Definition) (operation : Operation),
        set.find? "addx" = some d ∧ operation.shape = d.shape ∧
        operation.ReadFrom .empty ["$t0", "$t1", "-40000"] ∧
        operation.HeldBy d 0 7 0x112863C0 ∧
        (∀ field, some NarrowField.immediate = some field ↔ operation.Overflows 0 7 field) ∧
        (some NarrowField.immediate = none ↔
          operation.LastOperandKept 0 7 (Fields.ofWord 0x112863C0)) := by
  obtain ⟨set, hset, hencode⟩ : ∃ set,
      InstructionSet.ofList [⟨"addx", .immediate, 0xC4, 0xFF⟩] = .ok set ∧
      encodeStatement ⟨set, 0⟩ .empty (Statement.parse 7 "addx $t0, $t1, -40000") =
        .ok ⟨0x112863C0, some .immediate⟩ := ⟨_, rfl, rfl⟩
  have hbody : (Statement.parse 7 "addx $t0, $t1, -40000").body =
      .instruction "addx" ["$t0", "$t1", "-40000"] := by decide
  exact ⟨set, hset, hencode, fields_of_encodeStatement _ _ _ _ _ _ hbody hencode⟩

end Target

end Mips
