import Mips.Instruction.Standard
import Mips.Program.Listing
import Mips.Proofs.Program.Passes
import Mips.Proofs.Source.Histories

/-! # Words and labels in their places

Each slot of a program has an address, and so have its word, its entry in a listing and its label.

* `Program.wordAt?_addressOf`, `Program.exists_of_wordAt?_eq_some`: the word at the address of a
  slot, and the slot of a word that is found at an address. Slots that lie the whole address space
  apart have one address, and the word of the first is found.
* `Program.wordAt?_of_assemble`: in an assembled program the word at an address is that of the first
  slot with this address.
* `Program.placedLabels_eq`: the labels of a program are those of its listing, entry by entry.
* `Program.listing_of_assemble`: the entries and the labels of a listing. -/

namespace Mips
set_option autoImplicit false

namespace Program

/-! ## Words by address -/

theorem wordAt?_addressOf (program : Program) (slot : Nat) :
    program.wordAt? (program.addressOf slot) = program.word? (slot % 2 ^ 30) := by
  unfold wordAt? addressOf
  simp only [toNat_slotAddress_sub]
  rw [if_pos (Nat.mul_mod_right 4 _), Nat.mul_div_cancel_left _ (by omega)]

theorem exists_of_wordAt?_eq_some {program : Program} {address : Address} {word : Word}
    (h : program.wordAt? address = some word) :
    ∃ slot < 2 ^ 30, program.addressOf slot = address ∧ program.word? slot = some word := by
  have hoffset := (address - program.base).isLt
  simp only [wordAt?, Option.ite_none_right_eq_some] at h
  obtain ⟨haligned, hword⟩ := h
  refine ⟨(address - program.base).toNat / 4, by omega, ?_, hword⟩
  apply slotAddress_of_toNat_sub
  omega

theorem word?_eq_map_placedWords (program : Program) (slot : Nat) :
    program.word? slot = program.placedWords[slot]?.map PlacedWord.word := by
  rw [word?, placedWords, List.getElem?_map, Option.map_map]
  rfl

theorem getElem?_words (program : Program) (slot : Nat) :
    program.words[slot]? = program.word? slot :=
  List.getElem?_map

section
variable {target : Target} {lines : List String} {program : Program}
  (h : target.Assembles lines program)
include h

theorem slot_and_address_of_placedWord {slot : Nat} {placed : PlacedWord}
    (hplaced : program.placedWords[slot]? = some placed) :
    placed.slot = slot ∧ placed.address = program.addressOf slot := by
  rw [placedWords, List.getElem?_map, Option.map_eq_some_iff] at hplaced
  obtain ⟨there, hthere, rfl⟩ := hplaced
  exact ⟨h.slot_of_getElem? hthere, h.address_of_getElem? hthere⟩

theorem wordAt?_eq_some_iff (address : Address) (word : Word) :
    program.wordAt? address = some word ↔
      ∃ (slot : Nat) (placed : PlacedWord), program.placedWords[slot]? = some placed ∧
        placed.address = address ∧ placed.word = word ∧
        ∀ earlier < slot, ∀ other : PlacedWord,
          program.placedWords[earlier]? = some other → other.address ≠ address := by
  constructor
  · intro hword
    obtain ⟨slot, hslot, rfl, hget⟩ := exists_of_wordAt?_eq_some hword
    rw [word?_eq_map_placedWords, Option.map_eq_some_iff] at hget
    obtain ⟨placed, hplaced, rfl⟩ := hget
    refine ⟨slot, placed, hplaced, (slot_and_address_of_placedWord h hplaced).2, rfl, ?_⟩
    intro earlier hlt other hother hsame
    rw [(slot_and_address_of_placedWord h hother).2] at hsame
    have heq := slotAddress_injective program.base earlier slot (by omega) hslot hsame
    omega
  · rintro ⟨slot, placed, hplaced, rfl, rfl, hfirst⟩
    rw [(slot_and_address_of_placedWord h hplaced).2] at hfirst ⊢
    -- A slot of the address space before would have the same address.
    have hslot : slot % 2 ^ 30 = slot := by
      by_contra hne
      have hlt : slot % 2 ^ 30 < slot := by omega
      obtain ⟨other, hother⟩ : ∃ other, program.placedWords[slot % 2 ^ 30]? = some other := by
        have hlength := (List.getElem?_eq_some_iff.mp hplaced).1
        exact ⟨_, List.getElem?_eq_getElem (by omega)⟩
      apply hfirst _ hlt other hother
      rw [(slot_and_address_of_placedWord h hother).2]
      exact slotAddress_mod program.base slot
    rw [wordAt?_addressOf, hslot, word?_eq_map_placedWords, hplaced, Option.map_some]

theorem wordAt?_eq_none_iff (address : Address) :
    program.wordAt? address = none ↔ ∀ placed ∈ program.placedWords, placed.address ≠ address := by
  constructor
  · rintro hnone placed hmem rfl
    obtain ⟨slot, hplaced⟩ := List.mem_iff_getElem?.mp hmem
    have hlength := (List.getElem?_eq_some_iff.mp hplaced).1
    have hle := Nat.mod_le slot (2 ^ 30)
    rw [(slot_and_address_of_placedWord h hplaced).2, wordAt?_addressOf, word?_eq_map_placedWords,
      List.getElem?_eq_getElem (by omega)] at hnone
    cases hnone
  · intro hall
    rw [Option.eq_none_iff_forall_ne_some]
    intro word hword
    obtain ⟨slot, placed, hplaced, haddress, -⟩ := (wordAt?_eq_some_iff h address word).mp hword
    exact hall placed (List.mem_of_getElem? hplaced) haddress

end

/-- The word at an address is that of the first slot with this address, and there is none if no slot
has it. In a program that fits the address space every word is found at its own address, and that
is where its slot is. -/
theorem wordAt?_of_assemble (instructions : InstructionSet) (file : RegisterFile)
    (lines : List String) (program : Program)
    (hassemble : Target.assemble ⟨instructions, file.base⟩ lines = .ok program) :
    (∀ address word, program.wordAt? address = some word ↔
      ∃ (slot : Nat) (placed : PlacedWord), program.placedWords[slot]? = some placed ∧
        placed.address = address ∧ placed.word = word ∧
        ∀ earlier < slot, ∀ other : PlacedWord,
          program.placedWords[earlier]? = some other → other.address ≠ address) ∧
    (∀ address, program.wordAt? address = none ↔
      ∀ placed ∈ program.placedWords, placed.address ≠ address) ∧
    (program.size ≤ 2 ^ 30 → ∀ (slot : Nat) (placed : PlacedWord),
      program.placedWords[slot]? = some placed →
        ∃ word, program.words[slot]? = some word ∧
          program.wordAt? placed.address = some word) ∧
    ∀ (slot : Nat) (placed : PlacedWord), program.placedWords[slot]? = some placed →
      placed.slot = slot ∧ program.addressOf slot = placed.address ∧
        file.addressOf slot = placed.address := by
  have h := (Target.assemble_eq_ok_iff _ _ _).mp hassemble
  refine ⟨wordAt?_eq_some_iff h, wordAt?_eq_none_iff h, ?_, ?_⟩
  · intro hsize slot placed hplaced
    have hlength := (List.getElem?_eq_some_iff.mp hplaced).1
    rw [placedWords, List.length_map] at hlength
    have hslot : slot % 2 ^ 30 = slot := Nat.mod_eq_of_lt (Nat.lt_of_lt_of_le hlength hsize)
    have hword : program.word? slot = some placed.word := by
      rw [word?_eq_map_placedWords, hplaced, Option.map_some]
    refine ⟨placed.word, (program.getElem?_words slot).trans hword, ?_⟩
    rw [(slot_and_address_of_placedWord h hplaced).2, wordAt?_addressOf, hslot, hword]
  · intro slot placed hplaced
    obtain ⟨hslot, haddress⟩ := slot_and_address_of_placedWord h hplaced
    refine ⟨hslot, haddress.symm, ?_⟩
    rw [haddress, RegisterFile.addressOf, addressOf, h.base_eq]

/-- The first slot lies across the last address, and the second one does not begin at a multiple of
four. -/
theorem wordAt?_of_assemble_across_zero :
    ∃ program, Target.assemble ⟨InstructionSet.standard, (RegisterFile.init 0xFFFFFFFE).base⟩
        ["nop", "jr $ra"] = .ok program ∧ program.size ≤ 2 ^ 30 ∧
      program.addressOf 1 = 2 ∧ program.wordAt? 2 = some 0x03E00008 ∧
      program.wordAt? 4 = none := by
  obtain ⟨program, hassemble, hplaced, hsize⟩ : ∃ program,
      Target.assemble ⟨InstructionSet.standard, (RegisterFile.init 0xFFFFFFFE).base⟩
        ["nop", "jr $ra"] = .ok program ∧
      program.placedWords = [⟨0, 0xFFFFFFFE, 0, none, "nop"⟩, ⟨1, 2, 0x03E00008, none, "jr $ra"⟩] ∧
      program.size = 2 := ⟨_, rfl, rfl, rfl⟩
  have hsecond : program.placedWords[1]? = some ⟨1, 2, 0x03E00008, none, "jr $ra"⟩ := by
    rw [hplaced]
    rfl
  obtain ⟨-, hnone, hfits, haddress⟩ :=
    wordAt?_of_assemble _ (RegisterFile.init 0xFFFFFFFE) _ program hassemble
  obtain ⟨word, hword, hfound⟩ := hfits (by omega) 1 _ hsecond
  rw [getElem?_words, word?_eq_map_placedWords, hsecond] at hword
  cases hword
  refine ⟨program, hassemble, by omega, (haddress 1 _ hsecond).2.1, hfound, ?_⟩
  rw [hnone, hplaced]
  decide

/-! ## Listings -/

end Program

/-- The label of an entry, with the slot and the address of the entry. -/
def Listing.Entry.placedLabel? (entry : Entry) : Option PlacedLabel :=
  entry.label.map fun name => ⟨name, entry.slot, entry.address⟩

namespace Program

/-- Each label stands in the symbol table once, in the order of the lines that declare it. -/
theorem placedLabels_eq {target : Target} {lines : List String} {program : Program}
    (h : target.Assembles lines program) (instructions : InstructionSet) :
    program.placedLabels =
      (program.listing instructions).entries.filterMap Listing.Entry.placedLabel? := by
  rw [placedLabels, Symbols.toList_of_ofLines h.symbols_eq, ← h.statements_eq, statements, listing,
    List.filterMap_map, List.filterMap_map, List.map_filterMap]
  apply List.filterMap_congr
  intro slot hmem
  -- The table gives the address of the label, and the slot that of the entry.
  obtain ⟨k, hk⟩ := List.mem_iff_getElem?.mp hmem
  have haddress : program.addressOf slot.statement.slot = slot.address := by
    rw [h.slot_of_getElem? hk, h.address_of_getElem? hk]
  show (slot.statement.label.map _).map _ = slot.statement.label.map _
  rw [Option.map_map]
  apply congrArg (fun f => slot.statement.label.map f)
  funext name
  exact congrArg (PlacedLabel.mk name slot.statement.slot) haddress

section
variable {target : Target} {lines : List String} {program : Program}
  (h : target.Assembles lines program) (instructions : InstructionSet)
include h

theorem slot_and_address_of_entry {k : Nat} {e : Listing.Entry}
    (he : (program.listing instructions).entries[k]? = some e) :
    e.slot = k ∧ e.address = slotAddress target.base k := by
  rw [listing, List.getElem?_map, Option.map_eq_some_iff] at he
  obtain ⟨slot, hslot, rfl⟩ := he
  refine ⟨h.slot_of_getElem? hslot, ?_⟩
  rw [Listing.Entry.ofSlot, h.address_of_getElem? hslot, addressOf, h.base_eq]

theorem map_slot_entries :
    (program.listing instructions).entries.map Listing.Entry.slot = List.range program.size := by
  apply List.ext_getElem
  · rw [List.length_map, listing, List.length_map, List.length_range, size]
  · intro k hk _
    rw [List.getElem_map, List.getElem_range]
    rw [List.length_map] at hk
    exact (slot_and_address_of_entry h instructions (List.getElem?_eq_getElem hk)).1

theorem map_label_entries :
    (program.listing instructions).entries.map Listing.Entry.label =
      lines.map Statement.declaredLabel? := by
  rw [← Statement.map_label_parseLines, ← h.statements_eq, statements, listing, List.map_map,
    List.map_map]
  rfl

theorem map_name_placedLabels :
    program.placedLabels.map PlacedLabel.name = declaredNames lines := by
  rw [← Symbols.map_name_of_ofLines h.symbols_eq, placedLabels, List.map_map]
  rfl

theorem exists_placedWord_of_mem_placedLabels {label : PlacedLabel}
    (hlabel : label ∈ program.placedLabels) :
    ∃ placed : PlacedWord, program.placedWords[label.slot]? = some placed ∧
      placed.address = label.address := by
  obtain ⟨symbol, hmem, rfl⟩ := List.mem_map.mp hlabel
  have hdistinct := Symbols.distinct_of_ofLines h.symbols_eq
  exact h.exists_placedWord ((hdistinct.slotOf?_eq_some_iff _ _).mpr hmem)

end

/-- A listing has an entry for each slot of the program, in order, with the slot, the address, the
word and the cut field of the slot, and with the label of its line. Its labels are those of its
entries, which are all the names that the lines declare, each once and in order, and every label has
the address of the word it stands for. -/
theorem listing_of_assemble (target : Target) (lines : List String) (program : Program)
    (hassemble : target.assemble lines = .ok program) (instructions : InstructionSet) :
    let listing := program.listing instructions
    (listing.entries.map fun entry => (entry.slot, entry.address, entry.word, entry.truncated)) =
      (program.placedWords.map fun placed =>
        (placed.slot, placed.address, placed.word, placed.truncated)) ∧
    listing.entries.map Listing.Entry.slot = List.range program.size ∧
    listing.entries.map Listing.Entry.label = lines.map Statement.declaredLabel? ∧
    listing.labels = program.placedLabels ∧
    listing.labels = listing.entries.filterMap Listing.Entry.placedLabel? ∧
    (∀ label ∈ listing.labels, ∃ placed : PlacedWord,
      program.placedWords[label.slot]? = some placed ∧ placed.address = label.address) ∧
    listing.labels.map PlacedLabel.name = declaredNames lines ∧ (declaredNames lines).Nodup ∧
    listing.labels.Pairwise fun a b => a.slot < b.slot := by
  have h := (Target.assemble_eq_ok_iff _ _ _).mp hassemble
  obtain ⟨-, hnodup⟩ := (Symbols.exists_ofLines_eq_ok_iff lines).mp ⟨_, h.symbols_eq⟩
  refine ⟨?_, map_slot_entries h instructions, map_label_entries h instructions, rfl,
    placedLabels_eq h instructions, fun label => exists_placedWord_of_mem_placedLabels h,
    map_name_placedLabels h, hnodup, ?_⟩
  · rw [listing, placedWords, List.map_map, List.map_map]
    rfl
  · rw [listing, placedLabels, List.pairwise_map]
    exact Symbols.pairwise_of_ofLines h.symbols_eq

/-- The second slot and its label are at address zero. -/
theorem listing_of_assemble_across_zero :
    ∃ program, Target.assemble ⟨InstructionSet.standard, 0xFFFFFFFC⟩ ["nop", "end: jr $ra"] =
        .ok program ∧
      (program.listing InstructionSet.standard).labels = [⟨"end", 1, 0⟩] ∧
      (program.listing InstructionSet.standard).entries.map Listing.Entry.label =
        [none, some "end"] ∧
      ∃ placed : PlacedWord, program.placedWords[1]? = some placed ∧ placed.address = 0 := by
  obtain ⟨program, hassemble, hlabels⟩ : ∃ program,
      Target.assemble ⟨InstructionSet.standard, 0xFFFFFFFC⟩ ["nop", "end: jr $ra"] =
        .ok program ∧
      (program.listing InstructionSet.standard).labels = [⟨"end", 1, 0⟩] := ⟨_, rfl, rfl⟩
  obtain ⟨-, -, hentries, -, -, hplaced, -⟩ :=
    listing_of_assemble _ _ program hassemble InstructionSet.standard
  refine ⟨program, hassemble, hlabels, hentries.trans (by decide +kernel), ?_⟩
  apply hplaced ⟨"end", 1, 0⟩
  rw [hlabels]
  exact List.mem_singleton_self _

end Program

end Mips
