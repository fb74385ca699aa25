import Mips.Proofs.Instruction.Lookup
import Mips.Proofs.Operation.Writing
import Mips.Proofs.Program.Passes
import Mips.Proofs.Source.Grammar

/-! # Assembling a disassembled program

Each word of a program is written as a line that is labelled with its address. Where the words of
an instruction set are told apart by their codes, and its names can be written as mnemonics
(`InstructionSet.Reversible`), the lines assemble to the same words, and no operand is cut.

* `InstructionSet.Reversible.disassemble_encode`: a word is written with the definition and the
  operands that its fields hold.
* `exists_symbols_of_labelled`: lines that are labelled one by one have a symbol table.
* `Target.encodeStatement_disassemblyLine`: the step for one line.
* `Target.reassemble_disassembly`: all lines. -/

namespace Mips
set_option autoImplicit false

namespace InstructionSet

/-! ## Words told apart -/

structure Reversible (set : InstructionSet) : Prop where
  /-- The set was made by adding its definitions, as every set is (`ofList_toList`). -/
  built : ofList set.toList = .ok set
  narrow : ∀ d ∈ set.toList, d.opcode.toNat ≤ 63 ∧ d.funct.toNat ≤ 63
  codesDiffer : set.toList.Pairwise CodesDiffer
  plain : ∀ d ∈ set.toList, Text.IsPlainToken d.name ∧ Text.foldCase d.name ≠ "nop"

theorem reversible_standard : standard.Reversible := by
  have hlist : standard.toList = standardDefinitions :=
    (indexed_of_ofList ofList_standardDefinitions).2
  have hplain : ∀ d ∈ standardDefinitions,
      Text.IsPlainToken d.name ∧ Text.foldCase d.name ≠ "nop" := by decide
  have hcodes : standardDefinitions.Pairwise fun a b =>
      a.opcode = b.opcode → a.format = .register ∧ b.format = .register ∧ a.funct ≠ b.funct := by
    decide
  refine ⟨ofList_toList ofList_standardDefinitions, ?_, ?_, ?_⟩
  · rw [hlist]
    decide
  · rw [hlist]
    exact hcodes
  · rw [hlist]
    exact hplain

variable {set : InstructionSet}

theorem Reversible.find?_name (h : set.Reversible) {d : Definition} (hd : d ∈ set.toList) :
    set.find? d.name = some d :=
  ((indexed_of_ofList h.built).1.find?_eq_some_iff d.name d).mpr ⟨hd, rfl⟩

theorem Reversible.mem_of_find? (h : set.Reversible) {name : String} {d : Definition}
    (hfind : set.find? name = some d) : d ∈ set.toList :=
  (((indexed_of_ofList h.built).1.find?_eq_some_iff name d).mp hfind).1

theorem Reversible.disassemble_encode (h : set.Reversible) {d : Definition}
    (hd : d ∈ set.toList) {base : Address} (hbase : base.toNat % 4 = 0) (slot : Nat)
    {operation : Operation} (hshape : operation.shape = d.shape)
    (hkeeps : (operation.encode d base slot).KeepsTarget)
    (hword : (operation.encode d base slot).word ≠ 0) :
    set.disassemble (operation.encode d base slot).word (slotAddress base slot) =
      d.name ++ " " ++ ", ".intercalate (operation.stored.operandTexts base) := by
  have hnarrow := h.narrow d hd
  have hcodes := Operation.hasCodes_encode (by omega) (by omega) base slot hshape
  have hdecode : set.decode? (operation.encode d base slot).word = some d :=
    findCodes?_eq_some h.codesDiffer hd hcodes
  rw [disassemble, if_neg hword, hdecode]
  simp only [Definition.disassemble]
  rw [← hshape, Operation.operandTexts_encode hbase slot hshape hkeeps]

/-! ## Lines -/

/-- A word as a line that is labelled with its address. -/
def disassemblyLine (set : InstructionSet) (word : Word) (address : Address) : String :=
  Address.text address ++ ": " ++ set.disassemble word address

theorem tokens_disassemblyLine (set : InstructionSet) (word : Word) (address : Address) :
    Text.tokens (set.disassemblyLine word address) =
      (Address.text address ++ ":") :: Text.tokens (set.disassemble word address) := by
  have hcolon : Text.IsToken ":" := by decide
  have hlabel : Text.IsToken (Address.text address ++ ":") :=
    (Text.isToken_hex0x 8 address.toNat).append hcolon.not_separator
  have hline : set.disassemblyLine word address =
      Address.text address ++ ":" ++ " " ++ set.disassemble word address := by
    have happend : Address.text address ++ ":" ++ " " = Address.text address ++ ": " :=
      String.append_assoc
    rw [disassemblyLine, happend]
  rw [hline, Text.tokens_append _ _ _ (by decide) (by decide), Text.tokens_of_isToken hlabel]
  rfl

end InstructionSet

namespace Statement

theorem bodyOf_of_plain (mnemonic : String) (operands : List String)
    (hmnemonic : Text.IsPlainToken mnemonic) (hnop : Text.foldCase mnemonic ≠ "nop")
    (hoperands : ∀ operand ∈ operands, Text.IsPlainToken operand) :
    bodyOf (mnemonic :: operands) = .instruction mnemonic operands := by
  have hnone : IsComment [] := nofun
  have hbody := bodyOf_instruction hmnemonic.not_comment hnop
    (fun operand hoperand => (hoperands operand hoperand).not_comment) hnone
  rwa [List.append_nil] at hbody

theorem opensComment_addressLabel (address : Address) :
    Text.opensComment (Address.text address ++ ":") = false := by
  rw [Text.opensComment, String.toList_append, Address.text, Text.toList_hex0x]
  rfl

variable (set : InstructionSet) (word : Word) (address : Address)

theorem declaredLabel?_disassemblyLine :
    declaredLabel? (set.disassemblyLine word address) = some (Address.text address) := by
  rw [declaredLabel?, InstructionSet.tokens_disassemblyLine]
  simp only [opensComment_addressLabel, labelOf?_append_colon, Bool.false_eq_true, if_false]

theorem body_disassemblyLine (slot : Nat) :
    (parse slot (set.disassemblyLine word address)).body =
      bodyOf (Text.tokens (set.disassemble word address)) := by
  rw [parse, InstructionSet.tokens_disassemblyLine]
  simp only [ofTokens, opensComment_addressLabel, labelOf?_append_colon, Bool.false_eq_true,
    if_false]

end Statement

/-! ## Labels -/

section Labelled
variable {lines : List String} {label : Nat → String}

theorem declaredNames_of_labelled
    (h : ∀ (slot : Nat) (line : String), lines[slot]? = some line →
      Statement.declaredLabel? line = some (label slot)) :
    declaredNames lines = (List.range lines.length).map label := by
  induction lines using List.reverseRecOn with
  | nil => rfl
  | append_singleton lines line ih =>
    have hlast := h lines.length line (by simp)
    have hbefore : declaredNames lines = (List.range lines.length).map label := by
      apply ih
      intro slot earlier hline
      have hlt := (List.getElem?_eq_some_iff.mp hline).1
      exact h slot earlier (by rw [List.getElem?_append_left hlt, hline])
    rw [declaredNames_append, hbefore, List.length_append, List.length_singleton,
      List.range_succ, List.map_append]
    simp [declaredNames, hlast]

theorem exists_symbols_of_labelled
    (h : ∀ (slot : Nat) (line : String), lines[slot]? = some line →
      Statement.declaredLabel? line = some (label slot))
    (hempty : ∀ slot, label slot ≠ "")
    (hinjective : ∀ i < lines.length, ∀ j < lines.length, label i = label j → i = j) :
    ∃ symbols, Symbols.ofLines lines = .ok symbols ∧
      ∀ slot < lines.length, symbols.slotOf? (label slot) = some slot := by
  have hnames := declaredNames_of_labelled h
  have hnodup : (declaredNames lines).Nodup := by
    rw [hnames]
    apply List.Nodup.map_on _ List.nodup_range
    intro i hi j hj
    exact hinjective i (List.mem_range.mp hi) j (List.mem_range.mp hj)
  have hnonempty : "" ∉ declaredNames lines := by
    rw [hnames, List.mem_map]
    intro hmem
    obtain ⟨slot, -, hslot⟩ := hmem
    exact hempty slot hslot
  obtain ⟨symbols, hsymbols⟩ := (Symbols.exists_ofLines_eq_ok_iff lines).mpr ⟨hnonempty, hnodup⟩
  refine ⟨symbols, hsymbols, ?_⟩
  intro slot hslot
  have hdeclared : ∀ (i : Nat) (hi : i < lines.length), DeclaredAt lines i (label i) := by
    intro i hi
    rw [declaredAt_iff_getElem lines i _ hi]
    exact h i _ (List.getElem?_eq_getElem hi)
  rw [Symbols.slotOf?_of_ofLines hsymbols, firstSlot?_eq_some_iff]
  refine ⟨hdeclared slot hslot, ?_⟩
  intro earlier hearlier hsame
  have hlt : earlier < lines.length := Nat.lt_trans hearlier hslot
  have hlabel : label earlier = label slot :=
    Option.some.inj ((hdeclared earlier hlt).symm.trans hsame)
  have := hinjective earlier hlt slot hslot hlabel
  omega

end Labelled

/-! ## One line again -/

theorem Operation.ReadFrom.exists_label {symbols : Symbols} {tokens : List String}
    {operation : Operation} (h : operation.ReadFrom symbols tokens) {target : Nat}
    (htarget : operation.target? = some target) :
    ∃ name, symbols.slotOf? name = some target := by
  have hsome : operation.shape.labelPosition?.isSome = true := by
    rw [← isSome_target?, htarget]
    rfl
  obtain ⟨position, hposition⟩ := Option.isSome_iff_exists.mp hsome
  obtain ⟨place, hplace, hat⟩ := h.labelAt hposition
  obtain ⟨name, -, hname⟩ := Option.bind_eq_some_iff.mp hat
  rw [hplace] at htarget
  rw [htarget] at hname
  exact ⟨name, hname⟩

namespace Target

theorem encodeStatement_disassemblyLine {target : Target}
    (hset : target.instructions.Reversible) (hbase : target.base.toNat % 4 = 0)
    {symbols again : Symbols} {slot : Nat} {line : String} {encoding : Encoding}
    (h : target.encodeStatement symbols (Statement.parse slot line) = .ok encoding)
    (hkeeps : encoding.KeepsTarget)
    (hagain : ∀ name place, symbols.slotOf? name = some place →
      again.slotOf? (Address.text (slotAddress target.base place)) = some place) :
    target.encodeStatement again (Statement.parse slot
      (target.instructions.disassemblyLine encoding.word (slotAddress target.base slot))) =
        .ok ⟨encoding.word, none⟩ := by
  rw [encodeStatement_eq_ok_iff] at h ⊢
  by_cases hword : encoding.word = 0
  · -- Every zero word is written as `nop`, whatever it was assembled from.
    left
    have hbody := Statement.body_disassemblyLine target.instructions encoding.word
      (slotAddress target.base slot) slot
    have htext : target.instructions.disassemble encoding.word (slotAddress target.base slot) =
        "nop" := if_pos hword
    have hnop : Statement.bodyOf (Text.tokens "nop") = .nop := by decide
    rw [htext, hnop] at hbody
    rw [Statement.isFiller, hbody, hword]
    exact ⟨rfl, rfl⟩
  · right
    rcases h with hfiller | hinstruction
    · rw [hfiller.2] at hword
      exact absurd rfl hword
    · obtain ⟨mnemonic, tokens, d, operation, -, hfind, hshape, hread, hencoding⟩ := hinstruction
      rw [Statement.slot_parse] at hencoding
      rw [hencoding] at hkeeps hword ⊢
      have hd := hset.mem_of_find? hfind
      have hplain := hset.plain d hd
      have htokens : Text.tokens (target.instructions.disassemble
          (operation.encode d target.base slot).word (slotAddress target.base slot)) =
            d.name :: operation.stored.operandTexts target.base := by
        rw [hset.disassemble_encode hd hbase slot hshape hkeeps hword,
          Text.tokens_append _ _ _ (by decide) (by decide),
          Text.tokens_of_isToken hplain.1.toIsToken,
          Text.tokens_intercalate _ (by decide) (by decide) _
            fun text htext => (Operation.isPlainToken_of_mem_operandTexts htext).toIsToken]
        rfl
      refine ⟨d.name, operation.stored.operandTexts target.base, d, operation.stored, ?_,
        hset.find?_name hd, ?_, ?_, ?_⟩
      · rw [Statement.body_disassemblyLine, htokens]
        exact Statement.bodyOf_of_plain _ _ hplain.1 hplain.2
          fun text htext => Operation.isPlainToken_of_mem_operandTexts htext
      · rw [Operation.shape_stored, hshape]
      · apply Operation.readFrom_operandTexts
        intro place hplace
        obtain ⟨name, hname⟩ := hread.exists_label hplace
        exact hagain name place hname
      · rw [Statement.slot_parse, Operation.encode_stored d target.base slot operation hkeeps]

end Target

/-! ## All lines again -/

/-- Each word of a program as a line that is labelled with its address. -/
def Program.disassemblyLines (program : Program) (set : InstructionSet) : List String :=
  program.placedWords.map fun placed => set.disassemblyLine placed.word placed.address

namespace Target

theorem Assembles.length_disassemblyLines {target : Target} {lines : List String}
    {program : Program} (h : target.Assembles lines program) :
    (program.disassemblyLines target.instructions).length = lines.length := by
  rw [Program.disassemblyLines, Program.placedWords, List.length_map, List.length_map,
    h.length_slots]

theorem Assembles.getElem?_disassemblyLines {target : Target} {lines : List String}
    {program : Program} (h : target.Assembles lines program) {slot : Nat} {written : String}
    (hwritten : (program.disassemblyLines target.instructions)[slot]? = some written) :
    ∃ line encoding, lines[slot]? = some line ∧
      target.encodeStatement program.symbols (Statement.parse slot line) = .ok encoding ∧
      program.slots[slot]? =
        some ⟨Statement.parse slot line, slotAddress target.base slot, encoding⟩ ∧
      written = target.instructions.disassemblyLine encoding.word (slotAddress target.base slot) := by
  have hlt := (List.getElem?_eq_some_iff.mp hwritten).1
  rw [h.length_disassemblyLines] at hlt
  obtain ⟨encoding, hencode, hslot⟩ := h.slot_eq slot _ (List.getElem?_eq_getElem hlt)
  refine ⟨_, encoding, List.getElem?_eq_getElem hlt, hencode, hslot, ?_⟩
  rw [Program.disassemblyLines, Program.placedWords, List.map_map, List.getElem?_map, hslot,
    Option.map_some, Option.some.injEq] at hwritten
  rw [← hwritten]
  rfl

def reassembledSlot (target : Target) (slot : Slot) : Slot where
  statement := Statement.parse slot.statement.slot
    (target.instructions.disassemblyLine slot.encoding.word slot.address)
  address := slot.address
  encoding := ⟨slot.encoding.word, none⟩

theorem Assembles.reassembled {target : Target} {lines : List String} {program : Program}
    (h : target.Assembles lines program) (hset : target.instructions.Reversible)
    (hbase : target.base.toNat % 4 = 0)
    (hkeeps : ∀ slot ∈ program.slots, slot.encoding.KeepsTarget) {symbols : Symbols}
    (hsymbols : Symbols.ofLines (program.disassemblyLines target.instructions) = .ok symbols)
    (hlabels : ∀ slot < lines.length,
      symbols.slotOf? (Address.text (slotAddress target.base slot)) = some slot) :
    target.Assembles (program.disassemblyLines target.instructions)
      ⟨target.base, program.slots.map target.reassembledSlot, symbols⟩ := by
  refine ⟨rfl, hsymbols, ?_, ?_⟩
  · simp [Program.disassemblyLines, Program.placedWords]
  · intro slot written hwritten
    obtain ⟨line, encoding, -, hencode, hslot, heq⟩ := h.getElem?_disassemblyLines hwritten
    refine ⟨⟨encoding.word, none⟩, ?_, ?_⟩
    · rw [heq]
      apply encodeStatement_disassemblyLine hset hbase hencode
        (hkeeps _ (List.mem_of_getElem? hslot))
      intro name place hplace
      rw [Symbols.slotOf?_of_ofLines h.symbols_eq] at hplace
      exact hlabels place (firstSlot?_lt hplace)
    · rw [List.getElem?_map, hslot, heq]
      rfl

theorem reassemble_disassembly :
    InstructionSet.standard.Reversible ∧
    ∀ (target : Target) (lines : List String) (program : Program),
      target.instructions.Reversible → target.base.toNat % 4 = 0 → lines.length ≤ 2 ^ 30 →
      target.assemble lines = .ok program →
      (∀ slot ∈ program.slots, slot.encoding.KeepsTarget) →
      ∃ again, target.assemble (program.disassemblyLines target.instructions) = .ok again ∧
        again.words = program.words ∧ again.truncatedSlots = [] := by
  refine ⟨InstructionSet.reversible_standard, ?_⟩
  intro target lines program hset hbase hlength hassemble hkeeps
  have h := (assemble_eq_ok_iff target lines program).mp hassemble
  have hlen := h.length_disassemblyLines
  have hlabelled : ∀ (slot : Nat) (written : String),
      (program.disassemblyLines target.instructions)[slot]? = some written →
      Statement.declaredLabel? written =
        some (Address.text (slotAddress target.base slot)) := by
    intro slot written hwritten
    obtain ⟨line, encoding, -, -, -, heq⟩ := h.getElem?_disassemblyLines hwritten
    rw [heq, Statement.declaredLabel?_disassemblyLine]
  have hinjective : ∀ i < (program.disassemblyLines target.instructions).length,
      ∀ j < (program.disassemblyLines target.instructions).length,
      Address.text (slotAddress target.base i) = Address.text (slotAddress target.base j) →
        i = j := by
    intro i hi j hj htext
    have haddress := Text.hex0x_injective 8 _ _ (slotAddress target.base i).isLt
      (slotAddress target.base j).isLt htext
    exact slotAddress_injective target.base i j (by omega) (by omega)
      (BitVec.eq_of_toNat_eq haddress)
  obtain ⟨symbols, hsymbols, hslots⟩ := exists_symbols_of_labelled hlabelled
    (fun slot => (Text.isToken_hex0x 8 _).ne_empty) hinjective
  rw [hlen] at hslots
  refine ⟨_, (assemble_eq_ok_iff _ _ _).mpr (h.reassembled hset hbase hkeeps hsymbols hslots), ?_⟩
  constructor
  · simp only [Program.words, List.map_map]
    rfl
  · rw [Program.truncatedSlots, List.filter_eq_nil_iff]
    intro slot hslot
    obtain ⟨source, -, hsource⟩ := List.mem_map.mp hslot
    rw [← hsource]
    exact Bool.false_ne_true

/-- Branches in both directions, a jump, two literals that are cut and a line without a word of
its own. -/
theorem reassemble_disassembly_of_loop :
    ∃ program again,
      assemble ⟨InstructionSet.standard, 0x00400000⟩
        ["main: addi $t0, $zero, 65541", "loop: sll $t1, $t0, 33", "blez $t1, done",
          "beq $t0, $t1, loop", "j main", "done: # nothing"] = .ok program ∧
      program.disassemblyLines InstructionSet.standard =
        ["0x00400000: addi $t0, $zero, 5", "0x00400004: sll $t1, $t0, 1",
          "0x00400008: blez $t1, 0x00400014", "0x0040000c: beq $t0, $t1, 0x00400004",
          "0x00400010: j 0x00400000", "0x00400014: nop"] ∧
      assemble ⟨InstructionSet.standard, 0x00400000⟩
        (program.disassemblyLines InstructionSet.standard) = .ok again ∧
      again.words = program.words ∧ again.truncatedSlots = [] := by
  obtain ⟨again, hagain⟩ := reassemble_disassembly.2 ⟨InstructionSet.standard, 0x00400000⟩
    ["main: addi $t0, $zero, 65541", "loop: sll $t1, $t0, 33", "blez $t1, done",
      "beq $t0, $t1, loop", "j main", "done: # nothing"] _
    reassemble_disassembly.1 (by decide) (by decide) rfl (by decide +kernel)
  exact ⟨_, again, rfl, by decide +kernel, hagain⟩

end Target

end Mips
