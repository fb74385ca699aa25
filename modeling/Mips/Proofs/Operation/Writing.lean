import Mips.Program.Disassembly
import Mips.Proofs.Operation.Packing
import Mips.Proofs.Register.Names
import Mips.Proofs.Text.Numerals

/-! # Operations and the text they are written as

The text of a word shows the operands that its fields hold. These are the operands that were
encoded, except that a literal that did not fit is the cut one (`Operation.stored`).

* `Operation.encode_stored`: both operations have the same word, and the second fits it.
* `Operation.operandTexts_encode`: the operands of the word are written as those of the second.
* `Operation.readFrom_operandTexts`: what is written is read as the second again, in a table where
  the address of each slot is a label for it. -/

namespace Mips
set_option autoImplicit false

/-! ## Registers -/

theorem Register.isPlainToken_name : ∀ r : Register, Text.IsPlainToken r.name := by
  decide

theorem registerFieldName_setWidth (r : Register) : registerFieldName (r.setWidth 8) = r.name := by
  rw [registerFieldName, BitVec.setWidth_setWidth_of_le _ (by omega), BitVec.setWidth_eq]

/-! ## Formats -/

def Shape.format : Shape → Format
  | .jumpRegister | .shift | .arithmetic => .register
  | .branchEqual | .branchCompare | .immediate => .immediate
  | .jump => .jump

theorem Definition.format_shape (d : Definition) : d.shape.format = d.format := by
  unfold Definition.shape
  cases d.format <;> simp only [apply_ite Shape.format] <;> simp [Shape.format]

/-! ## Operands that fit -/

/-- A branch or a jump, if the word is one, leads to its label. -/
def Encoding.KeepsTarget (encoding : Encoding) : Prop :=
  encoding.truncated ≠ some .branchOffset ∧ encoding.truncated ≠ some .jumpTarget

instance (encoding : Encoding) : Decidable encoding.KeepsTarget :=
  inferInstanceAs (Decidable (_ ∧ _))

namespace Operation

/-- The operation that the word holds. -/
def stored : Operation → Operation
  | .shift rd rt amount => .shift rd rt (BitVec.ofInt 5 amount).toNat
  | .immediate rt rs value => .immediate rt rs (BitVec.ofInt 16 value).toInt
  | operation => operation

theorem shape_stored (operation : Operation) : operation.stored.shape = operation.shape := by
  cases operation <;> rfl

theorem encode_stored (d : Definition) (base : Address) (slot : Nat) (operation : Operation)
    (h : (operation.encode d base slot).KeepsTarget) :
    operation.stored.encode d base slot = ⟨(operation.encode d base slot).word, none⟩ := by
  obtain ⟨hbranch, hjump⟩ := h
  cases operation with
  | jumpRegister target => rfl
  | arithmetic rd rs rt => rfl
  -- A literal is cut once: what is left of it is cut to itself.
  | shift rd rt amount =>
    have hlt := (BitVec.ofInt 5 amount).isLt
    simp only [stored, encode, BitVec.ofInt_natCast, BitVec.ofNat_toNat, BitVec.setWidth_eq,
      Encoding.mk.injEq, true_and, NarrowField.unlessWithin_eq_none_iff]
    omega
  | immediate rt rs value =>
    have hlo := BitVec.le_toInt (BitVec.ofInt 16 value)
    have hhi := (BitVec.ofInt 16 value).toInt_lt
    simp only [stored, encode, BitVec.ofInt_toInt, Encoding.mk.injEq, true_and,
      NarrowField.unlessWithin_eq_none_iff]
    omega
  | branchEqual rs rt target =>
    exact congrArg (Encoding.mk _) ((NarrowField.unlessWithin_ne_some_iff _ _ _ _).mp hbranch)
  | branchCompare rs target =>
    exact congrArg (Encoding.mk _) ((NarrowField.unlessWithin_ne_some_iff _ _ _ _).mp hbranch)
  | jump target =>
    exact congrArg (Encoding.mk _) ((NarrowField.unlessWithin_ne_some_iff _ _ _ _).mp hjump)

/-! ## Codes -/

theorem setWidth_code {code : Byte} (h : code.toNat < 64) :
    (code.setWidth 6).setWidth 8 = code := by
  apply BitVec.eq_of_toNat_eq
  simp only [BitVec.toNat_setWidth]
  omega

theorem hasCodes_encode {d : Definition} (hopcode : d.opcode.toNat < 64)
    (hfunct : d.funct.toNat < 64) (base : Address) (slot : Nat) {operation : Operation}
    (hshape : operation.shape = d.shape) :
    let fields := Fields.ofWord (operation.encode d base slot).word
    d.hasCodes fields.opcode fields.funct = true := by
  have hformat : d.format = operation.shape.format := by rw [hshape, d.format_shape]
  cases operation <;>
    simp [Definition.hasCodes, hformat, shape, Shape.format, encode,
      Fields.ofWord_ofRegisterFields, Fields.ofWord_ofImmediateFields,
      Fields.ofWord_ofJumpFields, setWidth_code hopcode, setWidth_code hfunct]

/-! ## Writing -/

/-- The operands as text, for a program at a base address. -/
def operandTexts (base : Address) : Operation → List String
  | .jumpRegister target => [target.name]
  | .shift rd rt amount => [rd.name, rt.name, toString amount]
  | .arithmetic rd rs rt => [rd.name, rs.name, rt.name]
  | .branchEqual rs rt target => [rs.name, rt.name, Address.text (slotAddress base target)]
  | .branchCompare rs target => [rs.name, Address.text (slotAddress base target)]
  | .immediate rt rs value => [rt.name, rs.name, toString value]
  | .jump target => [Address.text (slotAddress base target)]

theorem operandTexts_encode {d : Definition} {base : Address} (hbase : base.toNat % 4 = 0)
    (slot : Nat) {operation : Operation} (hshape : operation.shape = d.shape)
    (h : (operation.encode d base slot).KeepsTarget) :
    (Fields.ofWord (operation.encode d base slot).word).operandTexts (slotAddress base slot)
      operation.shape = operation.stored.operandTexts base := by
  obtain ⟨hbranch, hjump⟩ := h
  cases operation with
  | jumpRegister target =>
    simp only [shape, encode, Fields.operandTexts, Fields.ofWord_ofRegisterFields,
      registerFieldName_setWidth, stored, operandTexts]
  | arithmetic rd rs rt =>
    simp only [shape, encode, Fields.operandTexts, Fields.ofWord_ofRegisterFields,
      registerFieldName_setWidth, stored, operandTexts]
  | shift rd rt amount =>
    have hshamt : ((BitVec.ofInt 5 amount).setWidth 8).toNat = (BitVec.ofInt 5 amount).toNat :=
      BitVec.toNat_setWidth_of_le (by omega)
    simp only [shape, encode, Fields.operandTexts, Fields.ofWord_ofRegisterFields,
      registerFieldName_setWidth, hshamt, stored, operandTexts]
    rfl
  | immediate rt rs value =>
    simp only [shape, encode, Fields.operandTexts, Fields.ofWord_ofImmediateFields,
      Fields.signedImmediate, registerFieldName_setWidth, stored, operandTexts]
  | branchEqual rs rt target =>
    have htarget := Fields.branchTarget_of_signedImmediate _ base slot target
      (signedImmediate_of_branch (.inl hshape.symm) hshape rfl hbranch)
    simp only [encode] at htarget
    simp only [shape, encode, Fields.operandTexts, Fields.ofWord_ofImmediateFields,
      registerFieldName_setWidth, stored, operandTexts, htarget]
  | branchCompare rs target =>
    have htarget := Fields.branchTarget_of_signedImmediate _ base slot target
      (signedImmediate_of_branch (.inr hshape.symm) hshape rfl hbranch)
    simp only [encode] at htarget
    simp only [shape, encode, Fields.operandTexts, Fields.ofWord_ofImmediateFields,
      registerFieldName_setWidth, stored, operandTexts, htarget]
  | jump target =>
    have htarget := (Fields.jumpTarget_eq_iff _ (slotAddress base target)
      (target_of_jump hshape.symm hshape rfl hjump)).mpr (by rw [slotAddress_mod_four, hbase])
    simp only [encode] at htarget
    simp only [shape, encode, Fields.operandTexts, stored, operandTexts, htarget]

theorem isPlainToken_of_mem_operandTexts {base : Address} {operation : Operation} {text : String}
    (h : text ∈ operation.operandTexts base) : Text.IsPlainToken text := by
  have haddress : ∀ address : Address, Text.IsPlainToken (Address.text address) :=
    fun address => Text.isPlainToken_hex0x 8 address.toNat
  cases operation <;>
    simp only [operandTexts, List.mem_cons, List.not_mem_nil, or_false] at h <;>
    rcases h with rfl | rfl | rfl <;>
    first
      | exact Register.isPlainToken_name _
      | exact haddress _
      | exact Text.isPlainToken_toString _

/-! ## Reading again -/

theorem readFrom_operandTexts (base : Address) (symbols : Symbols) (operation : Operation)
    (htarget : ∀ target, operation.target? = some target →
      symbols.slotOf? (Address.text (slotAddress base target)) = some target) :
    operation.stored.ReadFrom symbols (operation.stored.operandTexts base) := by
  cases operation with
  | jumpRegister target => exact Register.ofName?_name target
  | arithmetic rd rs rt =>
    exact ⟨Register.ofName?_name rd, Register.ofName?_name rs, Register.ofName?_name rt⟩
  | shift rd rt amount =>
    have hlt := (BitVec.ofInt 5 amount).isLt
    refine ⟨Register.ofName?_name rd, Register.ofName?_name rt, ?_⟩
    exact Text.integer64_toString _ (by omega) (by omega)
  | immediate rt rs value =>
    have hlo := BitVec.le_toInt (BitVec.ofInt 16 value)
    have hhi := (BitVec.ofInt 16 value).toInt_lt
    refine ⟨Register.ofName?_name rt, Register.ofName?_name rs, ?_⟩
    exact Text.integer64_toString _ (by omega) (by omega)
  | branchEqual rs rt target =>
    exact ⟨Register.ofName?_name rs, Register.ofName?_name rt, htarget target rfl⟩
  | branchCompare rs target => exact ⟨Register.ofName?_name rs, htarget target rfl⟩
  | jump target => exact htarget target rfl

end Operation

end Mips
