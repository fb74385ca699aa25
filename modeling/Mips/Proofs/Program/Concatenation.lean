import Mips.Instruction.Standard
import Mips.Proofs.Operation.Reading
import Mips.Proofs.Program.Passes

/-! # Programs one after the other

Lines that assemble on their own can be put after other lines, if the names they declare differ.
Branches count slots from where they stand and jumps name addresses, so the words stay as they are
once the second part is assembled for the address where it comes to stand.

* `Operation.relocate k`: an operation with its targets moved by `k` slots.
* `Operation.encode_relocate`: a move of the slot and the targets is a move of the base address.
* `Target.assemble_append`: the program of two parts, from the programs of the parts. -/

namespace Mips
set_option autoImplicit false

namespace Operation

/-! ## Moving an operation -/

def relocate (k : Nat) : Operation → Operation
  | .branchEqual rs rt target => .branchEqual rs rt (target + k)
  | .branchCompare rs target => .branchCompare rs (target + k)
  | .jump target => .jump (target + k)
  | operation => operation

theorem shape_relocate (k : Nat) (operation : Operation) :
    (operation.relocate k).shape = operation.shape := by
  cases operation <;> rfl

theorem relocate_zero (operation : Operation) : operation.relocate 0 = operation := by
  cases operation <;> rfl

theorem branchOffset_add (slot target k : Nat) :
    branchOffset (slot + k) (target + k) = branchOffset slot target := by
  unfold branchOffset
  omega

theorem encode_relocate (d : Definition) (base : Address) (slot k : Nat) (operation : Operation) :
    (operation.relocate k).encode d base (slot + k) =
      operation.encode d (slotAddress base k) slot := by
  cases operation with
  | branchEqual rs rt target => simp only [relocate, encode, branchOffset_add]
  | branchCompare rs target => simp only [relocate, encode, branchOffset_add]
  | jump target => simp only [relocate, encode, slotAddress_slotAddress]
  | _ => rfl

theorem ReadFrom.relocate {symbols moved : Symbols} {tokens : List String} {k : Nat}
    {operation : Operation} (h : operation.ReadFrom symbols tokens)
    (hmoved : ∀ name target, symbols.slotOf? name = some target →
      moved.slotOf? name = some (target + k)) :
    (operation.relocate k).ReadFrom moved tokens := by
  have hlabel : ∀ position target, LabelAt symbols tokens position target →
      LabelAt moved tokens position (target + k) := by
    intro position target hat
    obtain ⟨token, htoken, hslot⟩ := Option.bind_eq_some_iff.mp hat
    exact Option.bind_eq_some_iff.mpr ⟨token, htoken, hmoved token target hslot⟩
  cases operation with
  | branchEqual rs rt target => exact ⟨h.1, h.2.1, hlabel 2 target h.2.2⟩
  | branchCompare rs target => exact ⟨h.1, hlabel 1 target h.2⟩
  | jump target => exact hlabel 0 target h
  | jumpRegister => exact h
  | shift => exact h
  | arithmetic => exact h
  | immediate => exact h

end Operation

/-- A line that is moved by `k` slots along with the labels it names keeps its encoding, if the
program was assembled for an address `k` slots further up. -/
theorem Target.encodeStatement_relocate {instructions : InstructionSet} {base : Address}
    {symbols moved : Symbols} {slot k : Nat} {line : String} {encoding : Encoding}
    (h : encodeStatement ⟨instructions, slotAddress base k⟩ symbols (Statement.parse slot line) =
      .ok encoding)
    (hmoved : ∀ name target, symbols.slotOf? name = some target →
      moved.slotOf? name = some (target + k)) :
    encodeStatement ⟨instructions, base⟩ moved (Statement.parse (slot + k) line) =
      .ok encoding := by
  rw [encodeStatement_eq_ok_iff] at h ⊢
  obtain ⟨hfiller, hzero⟩ | ⟨mnemonic, tokens, d, operation, hbody, hfind, hshape, hread, hencode⟩ := h
  · exact .inl ⟨hfiller, hzero⟩
  · right
    refine ⟨mnemonic, tokens, d, operation.relocate k, hbody, hfind, ?_, hread.relocate hmoved, ?_⟩
    · rw [Operation.shape_relocate, hshape]
    · rw [hencode]
      exact (Operation.encode_relocate d base slot k operation).symm

/-- A line keeps its encoding in a table that has more names. -/
theorem Target.encodeStatement_extend {target : Target} {symbols larger : Symbols}
    {statement : Statement} {encoding : Encoding}
    (h : target.encodeStatement symbols statement = .ok encoding)
    (hlarger : ∀ name slot, symbols.slotOf? name = some slot → larger.slotOf? name = some slot) :
    target.encodeStatement larger statement = .ok encoding := by
  rw [encodeStatement_eq_ok_iff] at h ⊢
  obtain ⟨hfiller, hzero⟩ | ⟨mnemonic, tokens, d, operation, hbody, hfind, hshape, hread, hencode⟩ := h
  · exact .inl ⟨hfiller, hzero⟩
  · right
    have hread' : (operation.relocate 0).ReadFrom larger tokens := hread.relocate hlarger
    rw [Operation.relocate_zero] at hread'
    exact ⟨mnemonic, tokens, d, operation, hbody, hfind, hshape, hread', hencode⟩

/-! ## Moving a program -/

/-- The slot moves, and its address stays. -/
def Slot.relocate (k : Nat) (slot : Slot) : Slot :=
  { slot with statement := { slot.statement with slot := slot.statement.slot + k } }

theorem Statement.parseLines_append (before after : List String) :
    parseLines (before ++ after) =
      parseLines before ++
        (parseLines after).map fun s => { s with slot := s.slot + before.length } := by
  rw [parseLines, List.mapIdx_append]
  congr 1
  apply List.ext_getElem?
  intro i
  rw [List.getElem?_mapIdx, List.getElem?_map, getElem?_parseLines, Option.map_map]
  rfl

theorem Symbols.toList_append {before after : List String} {symbols first second : Symbols}
    (hsymbols : ofLines (before ++ after) = .ok symbols) (hfirst : ofLines before = .ok first)
    (hsecond : ofLines after = .ok second) :
    symbols.toList =
      first.toList ++ second.toList.map fun label =>
        { label with slot := label.slot + before.length } := by
  rw [toList_of_ofLines hsymbols, toList_of_ofLines hfirst, toList_of_ofLines hsecond,
    Statement.parseLines_append, List.filterMap_append, List.filterMap_map, List.map_filterMap]
  congr 2
  funext statement
  simp only [Function.comp_apply, declaration?, Option.map_map]
  rfl

namespace Target

/-- Two parts that declare different names have a common table: the labels of the first part, and
those of the second moved behind it. -/
theorem exists_symbols_append {before after : List String} {first second : Symbols}
    (hdisjoint : ∀ name ∈ declaredNames before, name ∉ declaredNames after)
    (hfirst : Symbols.ofLines before = .ok first) (hsecond : Symbols.ofLines after = .ok second) :
    ∃ symbols, Symbols.ofLines (before ++ after) = .ok symbols ∧
      ∀ name, symbols.slotOf? name =
        (first.slotOf? name).or ((second.slotOf? name).map (· + before.length)) := by
  obtain ⟨hempty₁, hnodup₁⟩ := (Symbols.exists_ofLines_eq_ok_iff before).mp ⟨first, hfirst⟩
  obtain ⟨hempty₂, hnodup₂⟩ := (Symbols.exists_ofLines_eq_ok_iff after).mp ⟨second, hsecond⟩
  have hexists : ∃ symbols, Symbols.ofLines (before ++ after) = .ok symbols := by
    rw [Symbols.exists_ofLines_eq_ok_iff, declaredNames_append, List.mem_append, List.nodup_append]
    refine ⟨fun h => h.elim hempty₁ hempty₂, hnodup₁, hnodup₂, ?_⟩
    intro name hname other hother heq
    rw [← heq] at hother
    exact hdisjoint name hname hother
  obtain ⟨symbols, hsymbols⟩ := hexists
  refine ⟨symbols, hsymbols, ?_⟩
  intro name
  rw [Symbols.slotOf?_of_ofLines hsymbols, Symbols.slotOf?_of_ofLines hfirst,
    Symbols.slotOf?_of_ofLines hsecond, firstSlot?_append]

theorem Assembles.append {instructions : InstructionSet} {base : Address}
    {before after : List String} {first second : Program} {symbols : Symbols}
    (h₁ : Assembles ⟨instructions, base⟩ before first)
    (h₂ : Assembles ⟨instructions, slotAddress base before.length⟩ after second)
    (hsymbols : Symbols.ofLines (before ++ after) = .ok symbols)
    (hkept : ∀ name target, first.symbols.slotOf? name = some target →
      symbols.slotOf? name = some target)
    (hmoved : ∀ name target, second.symbols.slotOf? name = some target →
      symbols.slotOf? name = some (target + before.length)) :
    Assembles ⟨instructions, base⟩ (before ++ after)
      ⟨base, first.slots ++ second.slots.map (Slot.relocate before.length), symbols⟩ := by
  refine ⟨rfl, hsymbols, ?_, ?_⟩
  · simp only [List.length_append, List.length_map, h₁.length_slots, h₂.length_slots]
  · intro slot line hline
    by_cases hlt : slot < before.length
    · rw [List.getElem?_append_left hlt] at hline
      obtain ⟨encoding, hencoding, hget⟩ := h₁.slot_eq slot line hline
      refine ⟨encoding, encodeStatement_extend hencoding hkept, ?_⟩
      rw [List.getElem?_append_left (by rw [h₁.length_slots]; exact hlt), hget]
    · rw [List.getElem?_append_right (by omega)] at hline
      obtain ⟨encoding, hencoding, hget⟩ := h₂.slot_eq _ line hline
      have hslot : slot - before.length + before.length = slot := by omega
      have hencoding' := encodeStatement_relocate hencoding hmoved
      rw [hslot] at hencoding'
      refine ⟨encoding, hencoding', ?_⟩
      rw [List.getElem?_append_right (by rw [h₁.length_slots]; omega), h₁.length_slots,
        List.getElem?_map, hget, Option.map_some]
      simp only [Slot.relocate, Statement.slot_parse, slotAddress_slotAddress, hslot]
      rfl

/-- The program of two parts: the words of the first and then those of the second, with the slots
and labels of the second moved behind the first. -/
theorem assemble_append (instructions : InstructionSet) (base : Address)
    (before after : List String) (first second : Program)
    (hdisjoint : ∀ name ∈ declaredNames before, name ∉ declaredNames after)
    (hfirst : assemble ⟨instructions, base⟩ before = .ok first)
    (hsecond : assemble ⟨instructions, base + BitVec.ofNat 32 (4 * before.length)⟩ after =
      .ok second) :
    ∃ program, assemble ⟨instructions, base⟩ (before ++ after) = .ok program ∧
      program.words = first.words ++ second.words ∧
      program.placedWords =
        first.placedWords ++ second.placedWords.map (fun placed =>
          { placed with slot := placed.slot + before.length }) ∧
      program.symbols.toList =
        first.symbols.toList ++ second.symbols.toList.map (fun label =>
          { label with slot := label.slot + before.length }) ∧
      ∀ name, program.symbols.slotOf? name =
        (first.symbols.slotOf? name).or
          ((second.symbols.slotOf? name).map (· + before.length)) := by
  rw [← slotAddress_eq_add] at hsecond
  have h₁ := (assemble_eq_ok_iff _ _ _).mp hfirst
  have h₂ := (assemble_eq_ok_iff _ _ _).mp hsecond
  obtain ⟨symbols, hsymbols, hslotOf⟩ :=
    exists_symbols_append hdisjoint h₁.symbols_eq h₂.symbols_eq
  have hkept : ∀ name target, first.symbols.slotOf? name = some target →
      symbols.slotOf? name = some target := by
    intro name target htarget
    rw [hslotOf, htarget, Option.some_or]
  have hmoved : ∀ name target, second.symbols.slotOf? name = some target →
      symbols.slotOf? name = some (target + before.length) := by
    intro name target htarget
    have habsent : first.symbols.slotOf? name = none := by
      rw [Symbols.slotOf?_of_ofLines h₁.symbols_eq, firstSlot?_eq_none_iff]
      intro hmem
      apply hdisjoint name hmem
      rw [Symbols.slotOf?_of_ofLines h₂.symbols_eq, firstSlot?_eq_some_iff] at htarget
      exact (mem_declaredNames after name).mpr ⟨target, htarget.1⟩
    rw [hslotOf, habsent, htarget, Option.none_or]
    rfl
  have hassembles := h₁.append h₂ hsymbols hkept hmoved
  refine ⟨_, (assemble_eq_ok_iff _ _ _).mpr hassembles, ?_, ?_, ?_, hslotOf⟩
  · simp only [Program.words, List.map_append, List.map_map]
    rfl
  · simp only [Program.placedWords, List.map_append, List.map_map]
    rfl
  · exact Symbols.toList_append hsymbols h₁.symbols_eq h₂.symbols_eq

/-- A first part at the end of the address space, and a second part that starts at address zero. -/
theorem assemble_append_across_zero :
    ∃ first second program,
      assemble ⟨InstructionSet.standard, 0xFFFFFFF8⟩ ["a: beq $t0, $t1, a", "j a"] = .ok first ∧
      assemble ⟨InstructionSet.standard, 0⟩ ["nop", "b: j b"] = .ok second ∧
      assemble ⟨InstructionSet.standard, 0xFFFFFFF8⟩
        ["a: beq $t0, $t1, a", "j a", "nop", "b: j b"] = .ok program ∧
      program.words = first.words ++ second.words ∧
      program.words = [0x1109FFFF, 0x083FFFFE, 0, 0x08000001] := by
  obtain ⟨first, hfirst, hwords₁⟩ : ∃ first,
      assemble ⟨InstructionSet.standard, 0xFFFFFFF8⟩ ["a: beq $t0, $t1, a", "j a"] = .ok first ∧
      first.words = [0x1109FFFF, 0x083FFFFE] := ⟨_, rfl, rfl⟩
  obtain ⟨second, hsecond, hwords₂⟩ : ∃ second,
      assemble ⟨InstructionSet.standard, 0⟩ ["nop", "b: j b"] = .ok second ∧
      second.words = [0, 0x08000001] := ⟨_, rfl, rfl⟩
  obtain ⟨program, hprogram, hwords, -⟩ :=
    assemble_append InstructionSet.standard 0xFFFFFFF8 ["a: beq $t0, $t1, a", "j a"]
      ["nop", "b: j b"] first second (by decide +kernel) hfirst hsecond
  refine ⟨first, second, program, hfirst, hsecond, hprogram, hwords, ?_⟩
  rw [hwords, hwords₁, hwords₂]
  rfl

end Target

end Mips
