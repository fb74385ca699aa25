import Mips.Proofs.Instruction.Reading
import Mips.Proofs.Operation.Writing

/-! # Decoding assembled words

A word is decoded as the first definition that matches it. The definition that it was assembled
with matches it too, but in a set where formats are mixed on one opcode it need not be the first:
the low bits of a literal can be the function code of a definition before it.

* `Definition.Matches`: a definition matches a word, in numbers.
* `decode?_eq_some_iff`: decoding finds the first match.
* `Target.decode?_of_encodeStatement`: what this means for an assembled line. -/

namespace Mips
set_option autoImplicit false

/-- The highest six bits of a word are the opcode, and for a register format the lowest six are the
function code. -/
def Definition.Matches (d : Definition) (word : Word) : Prop :=
  d.opcode.toNat = word.toNat / 2 ^ 26 ∧
    (d.format = .register → d.funct.toNat = word.toNat % 64)

theorem Definition.hasCodes_ofWord_iff (d : Definition) (word : Word) :
    d.hasCodes (Fields.ofWord word).opcode (Fields.ofWord word).funct = true ↔
      d.Matches word := by
  have hlt := word.isLt
  have hopcode : (Fields.ofWord word).opcode.toNat = word.toNat / 2 ^ 26 := by
    simp only [Fields.ofWord, BitVec.toNat_setWidth, BitVec.extractLsb'_toNat,
      Nat.shiftRight_eq_div_pow]
    omega
  have hfunct : (Fields.ofWord word).funct.toNat = word.toNat % 64 := by
    simp only [Fields.ofWord, BitVec.toNat_setWidth, BitVec.extractLsb'_toNat,
      Nat.shiftRight_eq_div_pow]
    omega
  unfold Definition.hasCodes Definition.Matches
  cases d.format with
  | register => simp [← BitVec.toNat_inj, hopcode, hfunct]
  | immediate => simp [← BitVec.toNat_inj, hopcode]
  | jump => simp [← BitVec.toNat_inj, hopcode]

/-- A word matches the definition that it was assembled with. -/
theorem Operation.matches_encode {d : Definition} (hopcode : d.opcode.toNat ≤ 63)
    (hfunct : d.funct.toNat ≤ 63) (base : Address) (slot : Nat) {operation : Operation}
    (hshape : operation.shape = d.shape) : d.Matches (operation.encode d base slot).word :=
  (d.hasCodes_ofWord_iff _).mp (hasCodes_encode (by omega) (by omega) base slot hshape)

namespace InstructionSet

/-- No definition before a position matches a word. -/
def UnmatchedBefore (set : InstructionSet) (word : Word) (position : Nat) : Prop :=
  ∀ i < position, ∀ c, set.toList[i]? = some c → ¬ c.Matches word

theorem decode?_eq_find? (set : InstructionSet) (word : Word) :
    set.decode? word = set.toList.find? fun d =>
      d.hasCodes (Fields.ofWord word).opcode (Fields.ofWord word).funct :=
  Array.find?_toList.symm

/-- A definition, at a position, is the first that matches a word. -/
structure FirstMatch (set : InstructionSet) (word : Word) (position : Nat) (d : Definition) :
    Prop where
  getElem?_eq : set.toList[position]? = some d
  matches_word : d.Matches word
  unmatchedBefore : set.UnmatchedBefore word position

theorem decode?_eq_some_iff (set : InstructionSet) (word : Word) (e : Definition) :
    set.decode? word = some e ↔ ∃ j, set.FirstMatch word j e := by
  rw [decode?_eq_find?, List.find?_eq_some_iff_getElem, e.hasCodes_ofWord_iff]
  constructor
  · intro h
    obtain ⟨hmatches, j, hj, he, hbefore⟩ := h
    refine ⟨j, List.getElem?_eq_some_iff.mpr ⟨hj, he⟩, hmatches, ?_⟩
    intro i hi c hc hmatch
    obtain ⟨_, hc⟩ := List.getElem?_eq_some_iff.mp hc
    have hnot := hbefore i hi
    rw [hc, (c.hasCodes_ofWord_iff word).mpr hmatch] at hnot
    cases hnot
  · intro h
    obtain ⟨j, he, hmatches, hbefore⟩ := h
    obtain ⟨hj, he⟩ := List.getElem?_eq_some_iff.mp he
    refine ⟨hmatches, j, hj, he, ?_⟩
    intro i hi
    have hi' : i < set.toList.length := Nat.lt_trans hi hj
    have hnot := hbefore i hi _ (List.getElem?_eq_getElem hi')
    rw [← Definition.hasCodes_ofWord_iff, Bool.not_eq_true] at hnot
    exact congrArg not hnot

/-- If some definition matches a word, the word is decoded, as that definition or as one before
it. -/
theorem exists_decode?_eq_some {set : InstructionSet} {word : Word} {d : Definition} {k : Nat}
    (hk : set.toList[k]? = some d) (hmatches : d.Matches word) :
    ∃ j e, set.decode? word = some e ∧ set.FirstMatch word j e ∧ j ≤ k := by
  have hsome : (set.decode? word).isSome = true := by
    rw [decode?_eq_find?, List.find?_isSome]
    exact ⟨d, List.mem_of_getElem? hk, (d.hasCodes_ofWord_iff word).mpr hmatches⟩
  obtain ⟨e, he⟩ := Option.isSome_iff_exists.mp hsome
  obtain ⟨j, hfirst⟩ := (set.decode?_eq_some_iff word e).mp he
  refine ⟨j, e, he, hfirst, ?_⟩
  apply Nat.le_of_not_lt
  intro hlt
  exact hfirst.unmatchedBefore k hlt d hk hmatches

/-- No definition stands at two positions, since their names differ. -/
theorem Indexed.position_unique {set : InstructionSet} (h : set.Indexed) {d : Definition}
    {i j : Nat} (hi : set.toList[i]? = some d) (hj : set.toList[j]? = some d) : i = j := by
  have hindexi := (h.getElem?_index _ i).mpr ⟨d, hi, rfl⟩
  have hindexj := (h.getElem?_index _ j).mpr ⟨d, hj, rfl⟩
  exact Option.some.inj (hindexi.symm.trans hindexj)

theorem Indexed.decode?_eq_some_iff_unmatchedBefore {set : InstructionSet} (h : set.Indexed)
    {word : Word} {d : Definition} {k : Nat} (hk : set.toList[k]? = some d)
    (hmatches : d.Matches word) :
    set.decode? word = some d ↔ set.UnmatchedBefore word k := by
  rw [decode?_eq_some_iff]
  constructor
  · intro hfirst
    obtain ⟨j, hfirst⟩ := hfirst
    rw [h.position_unique hk hfirst.getElem?_eq]
    exact hfirst.unmatchedBefore
  · intro hbefore
    exact ⟨k, hk, hmatches, hbefore⟩

end InstructionSet

/-- Every instruction that a line asks for is encoded with one definition `d` of the set, at one
position `k`, and its word is decoded as the first definition that matches it. That one stands at
`k` or before, and it is `d` exactly if no definition before `k` matches the word, as when codes
are not shared. -/
theorem Target.decode?_of_encodeStatement {target : Target} {symbols : Symbols}
    {statement : Statement} {mnemonic : String} {tokens : List String} {encoding : Encoding}
    (hmade : target.instructions.Made)
    (hcodes : ∀ d ∈ target.instructions.toList, d.opcode.toNat ≤ 63 ∧ d.funct.toNat ≤ 63)
    (hbody : statement.body = .instruction mnemonic tokens)
    (h : target.encodeStatement symbols statement = .ok encoding) :
    ∃ k d, target.instructions.find? mnemonic = some d ∧
      (∀ i, target.instructions.toList[i]? = some d ↔ i = k) ∧
      (∃ j e, target.instructions.decode? encoding.word = some e ∧
        target.instructions.FirstMatch encoding.word j e ∧ j ≤ k ∧
        (e = d ↔ target.instructions.UnmatchedBefore encoding.word k)) ∧
      (target.instructions.toList.Pairwise InstructionSet.CodesDiffer →
        target.instructions.decode? encoding.word = some d) := by
  have hindexed := hmade.indexed
  rw [encodeStatement_eq_ok_iff] at h
  obtain ⟨hfiller, _⟩ | ⟨name, operands, d, operation, hname, hfind, hshape, _, hencode⟩ := h
  · rw [Statement.isFiller, hbody] at hfiller
    cases hfiller
  · rw [hbody] at hname
    cases hname
    obtain ⟨hmem, _⟩ := (hindexed.find?_eq_some_iff mnemonic d).mp hfind
    obtain ⟨hopcode, hfunct⟩ := hcodes d hmem
    have hmatches : d.Matches encoding.word := by
      rw [hencode]
      exact Operation.matches_encode hopcode hfunct target.base statement.slot hshape
    obtain ⟨k, hk⟩ := List.getElem?_of_mem hmem
    have hposition (i : Nat) : target.instructions.toList[i]? = some d ↔ i = k :=
      ⟨fun hi => hindexed.position_unique hi hk, fun hi => hi ▸ hk⟩
    obtain ⟨j, e, hdecode, hfirst, hle⟩ := InstructionSet.exists_decode?_eq_some hk hmatches
    have hsame := hindexed.decode?_eq_some_iff_unmatchedBefore hk hmatches
    rw [hdecode, Option.some.injEq] at hsame
    refine ⟨k, d, hfind, hposition, ⟨j, e, hdecode, hfirst, hle, hsame⟩, ?_⟩
    intro hdiffer
    exact InstructionSet.findCodes?_eq_some hdiffer hmem
      ((d.hasCodes_ofWord_iff _).mpr hmatches)

/-- The literal 37 ends in the function code of the definition before, on the same opcode, and the
word is decoded as that one. -/
theorem Target.decode?_of_encodeStatement_shared_opcode :
    ∃ set, InstructionSet.ofList [⟨"mask", .register, 8, 37⟩, ⟨"addi", .immediate, 8, 0⟩] =
        .ok set ∧
      encodeStatement ⟨set, 0⟩ .empty (Statement.parse 7 "ADDI $t0, $t1, 37") =
        .ok ⟨0x21280025, none⟩ ∧
      set.decode? 0x21280025 = some ⟨"mask", .register, 8, 37⟩ ∧
      ∃ k d, set.find? "ADDI" = some d ∧ (∀ i, set.toList[i]? = some d ↔ i = k) ∧
        (∃ j e, set.decode? 0x21280025 = some e ∧ set.FirstMatch 0x21280025 j e ∧ j ≤ k ∧
          (e = d ↔ set.UnmatchedBefore 0x21280025 k)) ∧
        (set.toList.Pairwise InstructionSet.CodesDiffer → set.decode? 0x21280025 = some d) := by
  obtain ⟨set, hset, hencode, hdecode⟩ : ∃ set,
      InstructionSet.ofList [⟨"mask", .register, 8, 37⟩, ⟨"addi", .immediate, 8, 0⟩] = .ok set ∧
      encodeStatement ⟨set, 0⟩ .empty (Statement.parse 7 "ADDI $t0, $t1, 37") =
        .ok ⟨0x21280025, none⟩ ∧
      set.decode? 0x21280025 = some ⟨"mask", .register, 8, 37⟩ := ⟨_, rfl, rfl, rfl⟩
  have hbody : (Statement.parse 7 "ADDI $t0, $t1, 37").body =
      .instruction "ADDI" ["$t0", "$t1", "37"] := by decide
  have hcodes : ∀ d ∈ set.toList, d.opcode.toNat ≤ 63 ∧ d.funct.toNat ≤ 63 := by
    rw [(InstructionSet.indexed_of_ofList hset).2]
    decide
  exact ⟨set, hset, hencode, hdecode,
    decode?_of_encodeStatement (.ofList hset) hcodes hbody hencode⟩

end Mips
