import Mips.Proofs.Instruction.Decoding
import Mips.Proofs.Source.Grammar

/-! # Words in canonical form

A word can hold anything in the bits that the operands of its definition do not reach, and its
disassembly does not show them. Where the line that is shown is assembled again, they come out as
the definition alone fixes them.

* `Word.clear`, `Word.fill`: a word with some of its bits set to zero, or to one.
* `Definition.canonical`: a word with the bits reset that no operand reaches. Every word that was
  assembled is canonical (`Operation.canonical_encode`).
* `Operation.shownBy?`: the operation whose operands the disassembly of a word shows, if none of
  them is a label. Its encoding is the canonical word (`Operation.encode_of_shownBy`).
* `Target.encodeStatement_disassemble`: the same for the line that is shown. -/

namespace Mips
set_option autoImplicit false

/-! ## Bits -/

namespace Word

/-- Ones in `count` places from bit `lo` up. -/
def ones (lo count : Nat) : Word :=
  (BitVec.allOnes count).setWidth 32 <<< lo

/-- The word with `count` bits from bit `lo` up set to zero. -/
def clear (word : Word) (lo count : Nat) : Word :=
  word &&& ~~~ ones lo count

/-- The word with `count` bits from bit `lo` up set to one. -/
def fill (word : Word) (lo count : Nat) : Word :=
  word ||| ones lo count

theorem getLsbD_ones (lo count i : Nat) :
    (ones lo count).getLsbD i = decide (i < 32 ∧ lo ≤ i ∧ i < lo + count) := by
  simp only [ones, BitVec.getLsbD_shiftLeft, BitVec.getLsbD_setWidth, BitVec.getLsbD_allOnes]
  grind

theorem getLsbD_clear (word : Word) (lo count i : Nat) :
    (word.clear lo count).getLsbD i =
      (word.getLsbD i && !decide (lo ≤ i ∧ i < lo + count)) := by
  simp only [clear, BitVec.getLsbD_and, BitVec.getLsbD_not, getLsbD_ones]
  by_cases hi : i < 32
  · simp [hi]
  · simp [hi, BitVec.getLsbD_of_ge word i (by omega)]

theorem getLsbD_fill (word : Word) (lo count i : Nat) :
    (word.fill lo count).getLsbD i =
      (word.getLsbD i || decide (i < 32 ∧ lo ≤ i ∧ i < lo + count)) := by
  rw [fill, BitVec.getLsbD_or, getLsbD_ones]

section Layouts
variable (opcode funct : BitVec 6) (rs rt rd shamt : BitVec 5) (immediate : BitVec 16)
  (target : BitVec 22)

theorem getLsbD_ofRegisterFields (i : Nat) :
    (ofRegisterFields opcode rs rt rd shamt funct).getLsbD i =
      if i < 6 then funct.getLsbD i
      else if i < 11 then shamt.getLsbD (i - 6)
      else if i < 16 then rd.getLsbD (i - 11)
      else if i < 21 then rt.getLsbD (i - 16)
      else if i < 26 then rs.getLsbD (i - 21)
      else opcode.getLsbD (i - 26) := by
  simp only [ofRegisterFields, BitVec.getLsbD_append]
  grind

theorem getLsbD_ofImmediateFields (i : Nat) :
    (ofImmediateFields opcode rs rt immediate).getLsbD i =
      if i < 16 then immediate.getLsbD i
      else if i < 21 then rt.getLsbD (i - 16)
      else if i < 26 then rs.getLsbD (i - 21)
      else opcode.getLsbD (i - 26) := by
  simp only [ofImmediateFields, BitVec.getLsbD_append]
  grind

theorem clear_shamt :
    (ofRegisterFields opcode rs rt rd shamt funct).clear 6 5 =
      ofRegisterFields opcode rs rt rd 0 funct := by
  apply BitVec.eq_of_getLsbD_eq
  intro i hi
  simp only [getLsbD_clear, getLsbD_ofRegisterFields]
  grind

theorem clear_rs :
    (ofRegisterFields opcode rs rt rd shamt funct).clear 21 5 =
      ofRegisterFields opcode 0 rt rd shamt funct := by
  apply BitVec.eq_of_getLsbD_eq
  intro i hi
  simp only [getLsbD_clear, getLsbD_ofRegisterFields]
  grind

theorem clear_rt_rd_shamt :
    (ofRegisterFields opcode rs rt rd shamt funct).clear 6 15 =
      ofRegisterFields opcode rs 0 0 0 funct := by
  apply BitVec.eq_of_getLsbD_eq
  intro i hi
  simp only [getLsbD_clear, getLsbD_ofRegisterFields]
  grind

theorem fill_rd :
    (ofRegisterFields opcode rs rt rd shamt funct).fill 11 5 =
      ofRegisterFields opcode rs rt Register.returnAddress shamt funct := by
  have hones (i : Nat) : Register.returnAddress.getLsbD i = decide (i < 5) :=
    BitVec.getLsbD_allOnes
  apply BitVec.eq_of_getLsbD_eq
  intro i hi
  simp only [getLsbD_fill, getLsbD_ofRegisterFields, hones]
  grind

theorem clear_rt :
    (ofImmediateFields opcode rs rt immediate).clear 16 5 =
      ofImmediateFields opcode rs 0 immediate := by
  apply BitVec.eq_of_getLsbD_eq
  intro i hi
  simp only [getLsbD_clear, getLsbD_ofImmediateFields]
  grind

theorem clear_unused :
    (ofJumpFields opcode target).clear 22 4 = ofJumpFields opcode target := by
  apply BitVec.eq_of_getLsbD_eq
  intro i hi
  simp only [getLsbD_clear, ofJumpFields, BitVec.getLsbD_append]
  grind

end Layouts

/-- A word is laid out from its own fields. -/
theorem ofRegisterFields_extract (word : Word) :
    ofRegisterFields (word.extractLsb' 26 6) (word.extractLsb' 21 5) (word.extractLsb' 16 5)
      (word.extractLsb' 11 5) (word.extractLsb' 6 5) (word.extractLsb' 0 6) = word := by
  apply BitVec.eq_of_getLsbD_eq
  intro i hi
  simp only [getLsbD_ofRegisterFields, BitVec.getLsbD_extractLsb']
  grind

theorem ofImmediateFields_extract (word : Word) :
    ofImmediateFields (word.extractLsb' 26 6) (word.extractLsb' 21 5) (word.extractLsb' 16 5)
      (word.extractLsb' 0 16) = word := by
  apply BitVec.eq_of_getLsbD_eq
  intro i hi
  simp only [getLsbD_ofImmediateFields, BitVec.getLsbD_extractLsb']
  grind

end Word

/-! ## Canonical words -/

/-- The word with the bits reset that no operand of the definition reaches. They are zero, but for
the number of the register that a jump saves its return address in. -/
def Definition.canonical (d : Definition) (word : Word) : Word :=
  match d.shape with
  | .jumpRegister =>
    if d.funct = linkFunct then (word.clear 6 15).fill 11 5 else word.clear 6 15
  | .shift => word.clear 21 5
  | .arithmetic => word.clear 6 5
  | .branchCompare => word.clear 16 5
  | .jump => word.clear 22 4
  | .branchEqual | .immediate => word

namespace Operation

theorem canonical_encode {d : Definition} (base : Address) (slot : Nat) {operation : Operation}
    (hshape : operation.shape = d.shape) :
    d.canonical (operation.encode d base slot).word = (operation.encode d base slot).word := by
  cases operation <;> simp only [Definition.canonical, ← hshape, shape, encode]
  case jumpRegister target =>
    split
    · rw [Word.clear_rt_rd_shamt, Word.fill_rd]
    · rw [Word.clear_rt_rd_shamt]
  case shift rd rt amount => rw [Word.clear_rs]
  case arithmetic rd rs rt => rw [Word.clear_shamt]
  case branchCompare rs target => rw [Word.clear_rt]
  case jump target => rw [Word.clear_unused]

end Operation

/-! ## Operations shown -/

namespace Definition

variable {d : Definition} {word : Word}

theorem Matches.setWidth_opcode (h : d.Matches word) :
    d.opcode.setWidth 6 = word.extractLsb' 26 6 := by
  have hlt := word.isLt
  have hopcode := h.1
  apply BitVec.eq_of_toNat_eq
  rw [toNat_setWidth_six, BitVec.extractLsb'_toNat, Nat.shiftRight_eq_div_pow]
  omega

theorem Matches.setWidth_funct (h : d.Matches word) (hformat : d.format = .register) :
    d.funct.setWidth 6 = word.extractLsb' 0 6 := by
  have hfunct := h.2 hformat
  apply BitVec.eq_of_toNat_eq
  rw [toNat_setWidth_six, BitVec.extractLsb'_toNat, Nat.shiftRight_eq_div_pow]
  omega

/-- The zero word has the function code of a shift, so that no return address is saved in it. -/
theorem Matches.canonical_zero (h : d.Matches 0) : d.canonical 0 = 0 := by
  have hshape : d.shape ≠ .jumpRegister := by
    intro hjump
    have hformat : d.format = .register := by
      rw [← d.format_shape, hjump]
      rfl
    have hfunct : d.funct = 0 := BitVec.eq_of_toNat_eq (h.2 hformat)
    rw [shape, hformat, hfunct] at hjump
    cases hjump
  unfold canonical
  split
  · contradiction
  all_goals rfl

end Definition

namespace Operation

/-- The operation whose operands the fields of a word show, for a shape that takes no label. -/
def shownBy? (word : Word) : Shape → Option Operation
  | .jumpRegister => some (.jumpRegister (word.extractLsb' 21 5))
  | .shift =>
    some (.shift (word.extractLsb' 11 5) (word.extractLsb' 16 5) (word.extractLsb' 6 5).toNat)
  | .arithmetic =>
    some (.arithmetic (word.extractLsb' 11 5) (word.extractLsb' 21 5) (word.extractLsb' 16 5))
  | .immediate =>
    some (.immediate (word.extractLsb' 16 5) (word.extractLsb' 21 5)
      (word.extractLsb' 0 16).toInt)
  | .branchEqual | .branchCompare | .jump => none

section ShownBy
variable {word : Word} {kind : Shape} {operation : Operation}

theorem exists_shownBy? (word : Word)
    (h : kind ∈ [.jumpRegister, .shift, .arithmetic, .immediate]) :
    ∃ operation, shownBy? word kind = some operation := by
  simp only [List.mem_cons, List.not_mem_nil, or_false] at h
  rcases h with rfl | rfl | rfl | rfl <;> exact ⟨_, rfl⟩

theorem shape_of_shownBy (h : shownBy? word kind = some operation) : operation.shape = kind := by
  cases kind <;> cases h <;> rfl

theorem target?_of_shownBy (h : shownBy? word kind = some operation) :
    operation.target? = none := by
  cases kind <;> cases h <;> rfl

/-- A literal that is read from a field fits it. -/
theorem stored_of_shownBy (h : shownBy? word kind = some operation) :
    operation.stored = operation := by
  cases kind <;> cases h <;>
    simp only [stored, BitVec.ofInt_natCast, BitVec.ofNat_toNat, BitVec.setWidth_eq,
      BitVec.ofInt_toInt]

theorem operandTexts_of_shownBy (h : shownBy? word kind = some operation)
    (base address : Address) :
    (Fields.ofWord word).operandTexts address kind = operation.operandTexts base := by
  have hshamt : ((word.extractLsb' 6 5).setWidth 8).toNat = (word.extractLsb' 6 5).toNat :=
    BitVec.toNat_setWidth_of_le (by omega)
  cases kind <;> cases h <;>
    simp only [Fields.operandTexts, Fields.ofWord, registerFieldName_setWidth, operandTexts,
      Fields.signedImmediate, hshamt]
  rfl

theorem readFrom_of_shownBy (h : shownBy? word kind = some operation) (base : Address)
    (symbols : Symbols) : operation.ReadFrom symbols (operation.operandTexts base) := by
  have hread := readFrom_operandTexts base symbols operation fun target htarget => by
    rw [target?_of_shownBy h] at htarget
    cases htarget
  rwa [stored_of_shownBy h] at hread

end ShownBy

theorem encode_of_shownBy {d : Definition} {word : Word} {operation : Operation}
    (hmatches : d.Matches word) (h : shownBy? word d.shape = some operation) (base : Address)
    (slot : Nat) : operation.encode d base slot = ⟨d.canonical word, none⟩ := by
  have hformat := d.format_shape
  have hopcode := hmatches.setWidth_opcode
  have hfunct := hmatches.setWidth_funct
  cases hshape : d.shape <;> rw [hshape] at h hformat <;> cases h <;>
    simp only [encode, Definition.canonical, hshape, hopcode]
  -- In each case the fields that the encoding resets are put back, and the word is whole.
  case jumpRegister =>
    rw [hfunct hformat.symm]
    split
    · rw [← Word.fill_rd _ _ _ _ 0, ← Word.clear_rt_rd_shamt _ _ _ (word.extractLsb' 16 5)
        (word.extractLsb' 11 5) (word.extractLsb' 6 5), Word.ofRegisterFields_extract]
    · rw [← Word.clear_rt_rd_shamt _ _ _ (word.extractLsb' 16 5) (word.extractLsb' 11 5)
        (word.extractLsb' 6 5), Word.ofRegisterFields_extract]
  case shift =>
    have hlt := (word.extractLsb' 6 5).isLt
    rw [hfunct hformat.symm, BitVec.ofInt_natCast, BitVec.ofNat_toNat, BitVec.setWidth_eq,
      ← Word.clear_rs _ _ (word.extractLsb' 21 5), Word.ofRegisterFields_extract,
      (NarrowField.unlessWithin_eq_none_iff _ _ _ _).mpr (by omega)]
  case arithmetic =>
    rw [hfunct hformat.symm, ← Word.clear_shamt _ _ _ _ _ (word.extractLsb' 6 5),
      Word.ofRegisterFields_extract]
  case immediate =>
    have hlo := BitVec.le_toInt (word.extractLsb' 0 16)
    have hhi := (word.extractLsb' 0 16).toInt_lt
    rw [BitVec.ofInt_toInt, Word.ofImmediateFields_extract,
      (NarrowField.unlessWithin_eq_none_iff _ _ _ _).mpr (by omega)]

end Operation

/-! ## Lines -/

theorem Definition.body_disassemble {d : Definition} (hname : Statement.IsMnemonic none d.name)
    {word : Word} {operation : Operation} (h : Operation.shownBy? word d.shape = some operation)
    (base address : Address) (slot : Nat) :
    (Statement.parse slot (d.disassemble (Fields.ofWord word) address)).body =
      .instruction d.name (operation.operandTexts base) := by
  have hplain : ∀ text ∈ operation.operandTexts base, Text.IsPlainToken text :=
    fun text htext => Operation.isPlainToken_of_mem_operandTexts htext
  have htokens : Text.tokens (d.disassemble (Fields.ofWord word) address) =
      d.name :: operation.operandTexts base := by
    rw [disassemble, Operation.operandTexts_of_shownBy h base,
      Text.tokens_append _ _ _ (by decide) (by decide),
      Text.tokens_of_isToken hname.toIsToken,
      Text.tokens_intercalate _ (by decide) (by decide) _
        fun text htext => (hplain text htext).toIsToken]
    rfl
  have hderives : Statement.Derives (d.name :: operation.operandTexts base ++ []) none
      (.instruction d.name (operation.operandTexts base)) :=
    .instruction (fun name hlabel => by cases hlabel) hname hplain
      (fun first hfirst => by cases hfirst)
  rw [List.append_nil, ← htokens] at hderives
  exact ((Statement.parse_eq_iff_derives slot _ _ _).mpr hderives).2

namespace Target

/-- A word without a label among its operands is assembled again from the line it is shown as, to
its canonical form. No operand is cut, and neither the address, the slot nor the symbols count. -/
theorem encodeStatement_disassemble {target : Target} (hmade : target.instructions.Made)
    {word : Word} {d : Definition} (hdecode : target.instructions.decode? word = some d)
    (hshape : d.shape ∈ [.jumpRegister, .shift, .arithmetic, .immediate])
    (hname : Statement.IsMnemonic none d.name) (symbols : Symbols) (slot : Nat)
    (address : Address) :
    target.encodeStatement symbols
        (Statement.parse slot (target.instructions.disassemble word address)) =
      .ok ⟨d.canonical word, none⟩ := by
  obtain ⟨position, hfirst⟩ := (target.instructions.decode?_eq_some_iff word d).mp hdecode
  have hmatches := hfirst.matches_word
  rw [encodeStatement_eq_ok_iff]
  by_cases hword : word = 0
  · left
    have htext : target.instructions.disassemble word address = "nop" := if_pos hword
    rw [hword] at hmatches
    rw [htext, hword, hmatches.canonical_zero]
    exact ⟨rfl, rfl⟩
  · right
    have htext : target.instructions.disassemble word address =
        d.disassemble (Fields.ofWord word) address := by
      rw [InstructionSet.disassemble, if_neg hword, hdecode]
    have hfind : target.instructions.find? d.name = some d :=
      (hmade.indexed.find?_eq_some_iff d.name d).mpr
        ⟨List.mem_of_getElem? hfirst.getElem?_eq, rfl⟩
    obtain ⟨operation, hshown⟩ := Operation.exists_shownBy? word hshape
    refine ⟨d.name, operation.operandTexts target.base, d, operation, ?_, hfind,
      Operation.shape_of_shownBy hshown, Operation.readFrom_of_shownBy hshown _ _, ?_⟩
    · rw [htext, Definition.body_disassemble hname hshown]
    · rw [Operation.encode_of_shownBy hmatches hshown]

/-- The register that the return address is saved in is set, though the word named another one. -/
theorem encodeStatement_disassemble_link :
    InstructionSet.standard.decode? 0x01ef2fc9 = some ⟨"jalr", .register, 0, 9⟩ ∧
      InstructionSet.standard.disassemble 0x01ef2fc9 0 = "jalr $t7" ∧
      encodeStatement ⟨InstructionSet.standard, 0⟩ .empty
        (Statement.parse 7 (InstructionSet.standard.disassemble 0x01ef2fc9 0)) =
          .ok ⟨Definition.canonical ⟨"jalr", .register, 0, 9⟩ 0x01ef2fc9, none⟩ ∧
      Definition.canonical ⟨"jalr", .register, 0, 9⟩ 0x01ef2fc9 = 0x01e0f809 := by
  have hdecode : InstructionSet.standard.decode? 0x01ef2fc9 =
      some ⟨"jalr", .register, 0, 9⟩ := by decide +kernel
  refine ⟨hdecode, by decide +kernel, ?_, by decide +kernel⟩
  exact encodeStatement_disassemble .standard hdecode (by decide) (by decide) .empty 7 0

end Target

end Mips
