import Mips.Proofs.Instruction.Decoding
import Mips.Proofs.Instruction.RoundTrip
import Mips.Proofs.Program.Placement
import Mips.Proofs.Program.Reassembly
import Mips.Proofs.Text.Trimming

/-! # The text of a listing

A listing is printed row by row: for each entry a row with its label, if it has one, and a row that
starts with two spaces and holds the address and the word in columns of a fixed width.

* `Listing.Entry.render`: the rows of one entry. Each entry is printed at the end of a text that is
  trimmed as a whole, but since no row is blank, only the new row is trimmed. So the text is that of
  the entries, one after the other (`Listing.render_eq_join`).
* `Listing.wordRows`, `Listing.readRow?`: the rows of a text that start with two spaces, and the
  address and the word that such a row shows.
* `Listing.wordRows_render`: if no label, source or disassembly holds a line feed, these are the rows
  of the entries, one for each. `Program.onLines_of_mem`: so it is for a program that was assembled
  from a text.
* `Listing.render_local_faithful`: all this together. -/

namespace Mips
set_option autoImplicit false

/-! ## Rows of a text -/

theorem Text.IsToken.isLine {s : String} (h : IsToken s) : IsLine s := by
  refine ⟨?_, ?_⟩
  · intro hmem
    exact absurd (h.not_separator '\n' hmem) (by decide)
  · intro hlast
    exact absurd (h.not_separator '\r' (List.mem_of_getLast? hlast)) (by decide)

theorem Text.splitOn_flatMap (rows : List (List Char)) (h : ∀ row ∈ rows, '\n' ∉ row) :
    (rows.flatMap (· ++ ['\n'])).splitOn '\n' = rows ++ [[]] := by
  induction rows with
  | nil => rfl
  | cons row rows ih =>
    have hrow := h row (List.mem_cons_self ..)
    rw [List.flatMap_cons, List.append_assoc, List.singleton_append,
      List.splitOn_append_cons_self_of_not_mem hrow,
      ih fun other hother => h other (List.mem_cons_of_mem row hother), List.cons_append]

theorem Text.exists_alignRight (width : Nat) (s : String) :
    ∃ spaces : String, (∀ c ∈ spaces.toList, c = ' ') ∧ alignRight width s = spaces ++ s := by
  refine ⟨String.ofList (List.replicate (width - s.toList.length) ' '), ?_, ?_⟩
  · intro c hc
    rw [String.toList_ofList] at hc
    exact List.eq_of_mem_replicate hc
  · rw [alignRight, List.leftpad, String.ofList_append, String.ofList_toList]

/-- A column of a row, by the columns before it and its width. -/
theorem Text.extract_of_append {row before column after : List Char} {start stop : Nat}
    (h : row = before ++ column ++ after) (hstart : before.length = start)
    (hstop : start + column.length = stop) : row.extract start stop = column := by
  subst h hstart hstop
  simp [List.extract_eq_take_drop]

namespace Listing

/-- A row with an address and a word starts with two spaces. -/
def isWordRow (row : List Char) : Bool :=
  [' ', ' '].isPrefixOf row

def wordRows (text : String) : List (List Char) :=
  (text.toList.splitOn '\n').filter isWordRow

/-- The address is in the ten columns after the two spaces, and the word in the eight columns after
a colon and a space. -/
def readRow? (row : List Char) : Option (Address × Word) := do
  let address ← (Text.unsigned 0x100000000 (row.extract 2 12)).toOption
  let word ← (Text.natural 16 0x100000000 (row.extract 14 22)).toOption
  return (BitVec.ofNat 32 address, BitVec.ofNat 32 word)

/-! ## Rows of an entry -/

namespace Entry

/-- The characters up to the word, with which the row of an entry starts. -/
def lead (entry : Entry) : List Char :=
  ' ' :: ' ' :: '0' :: 'x' :: Text.hexChars 8 entry.address.toNat ++
    ':' :: ' ' :: Text.hexChars 8 entry.word.toNat

/-- The columns on a line of their own, without blank characters at their end. -/
def wordLine (showSource : Bool) (entry : Entry) : String :=
  Text.trimRight (entry.columns showSource) ++ "\n"

def render (showSource : Bool) (entry : Entry) : String :=
  entry.labelLine ++ entry.wordLine showSource

def wordRow (showSource : Bool) (entry : Entry) : List Char :=
  Text.trimRightChars (entry.columns showSource).toList

def labelRow (entry : Entry) (label : String) : List Char :=
  (Address.text entry.address ++ " <" ++ label ++ ">:").toList

def rows (showSource : Bool) (entry : Entry) : List (List Char) :=
  (entry.label.map entry.labelRow).toList ++ [entry.wordRow showSource]

theorem wordLine_eq (showSource : Bool) (entry : Entry) :
    entry.wordLine showSource = String.ofList (entry.wordRow showSource) ++ "\n" :=
  rfl

theorem toList_wordLine (showSource : Bool) (entry : Entry) :
    (entry.wordLine showSource).toList = entry.wordRow showSource ++ ['\n'] := by
  rw [wordLine_eq, String.toList_append, String.toList_ofList]
  rfl

theorem toList_labelLine (entry : Entry) :
    entry.labelLine.toList = (entry.label.map entry.labelRow).toList.flatMap (· ++ ['\n']) := by
  unfold labelLine
  cases entry.label with
  | none => rfl
  | some label => simp [labelRow, String.toList_append]

theorem toList_render (showSource : Bool) (entry : Entry) :
    (entry.render showSource).toList = (entry.rows showSource).flatMap (· ++ ['\n']) := by
  rw [render, String.toList_append, toList_labelLine, toList_wordLine, rows, List.flatMap_append,
    List.flatMap_singleton]

/-- The last digit of the word ends the lead, and it is not blank. -/
theorem exists_lead (entry : Entry) :
    ∃ before last, entry.lead = before ++ [last] ∧ Text.isBlank last = false := by
  have hdigit := Text.isTokenSeparator_digitChar (entry.word.toNat % 16) (Nat.mod_lt _ (by omega))
  rw [Text.isTokenSeparator, Bool.or_eq_false_iff] at hdigit
  refine ⟨' ' :: ' ' :: '0' :: 'x' :: Text.hexChars 8 entry.address.toNat ++
    ':' :: ' ' :: Text.hexChars 7 (entry.word.toNat / 16), _, ?_, hdigit.1⟩
  simp [lead, Text.hexChars]

theorem exists_columns (showSource : Bool) (entry : Entry) :
    ∃ after, (entry.columns showSource).toList = entry.lead ++ after := by
  simp only [columns, lead, Address.text, String.toList_append, Text.toList_hex0x, Text.hex,
    String.toList_ofList]
  simp

/-- Trimming keeps the columns up to the word, and any text that stands before them. -/
theorem exists_trimRightChars (showSource : Bool) (entry : Entry) :
    ∃ after, ∀ text, Text.trimRightChars (text ++ (entry.columns showSource).toList) =
      text ++ (entry.lead ++ after) := by
  obtain ⟨after, hcolumns⟩ := entry.exists_columns showSource
  obtain ⟨before, last, hlead, hlast⟩ := entry.exists_lead
  refine ⟨Text.trimRightChars after, ?_⟩
  intro text
  have hsplit : text ++ (entry.lead ++ after) = (text ++ before) ++ last :: after := by
    simp [hlead]
  rw [hcolumns, hsplit, Text.trimRightChars_append_cons _ _ _ hlast, hlead]
  simp

theorem exists_wordRow (showSource : Bool) (entry : Entry) :
    ∃ after, entry.wordRow showSource = entry.lead ++ after := by
  obtain ⟨after, htrim⟩ := entry.exists_trimRightChars showSource
  have hrow := htrim []
  rw [List.nil_append, List.nil_append] at hrow
  exact ⟨after, hrow⟩

theorem trimRightChars_append_columns (showSource : Bool) (entry : Entry) (text : List Char) :
    Text.trimRightChars (text ++ (entry.columns showSource).toList) =
      text ++ entry.wordRow showSource := by
  obtain ⟨after, htrim⟩ := entry.exists_trimRightChars showSource
  have hrow := htrim []
  rw [List.nil_append, List.nil_append] at hrow
  rw [htrim, wordRow, hrow]

/-- An entry ends in a line feed after a character that is not blank. -/
theorem exists_render (showSource : Bool) (entry : Entry) :
    ∃ before last, (entry.render showSource).toList = before ++ [last, '\n'] ∧
      Text.isBlank last = false := by
  obtain ⟨after, hrow⟩ := entry.exists_wordRow showSource
  have hne : entry.wordRow showSource ≠ [] := by
    rw [hrow]
    simp [lead]
  obtain ⟨before, last, hlast, hblank⟩ := Text.exists_of_trimRightChars_ne_nil hne
  refine ⟨entry.labelLine.toList ++ before, last, ?_, hblank⟩
  rw [render, String.toList_append, toList_wordLine, wordRow, hlast]
  simp

/-! ## Rows that are read back -/

theorem readRow?_wordRow (showSource : Bool) (entry : Entry) :
    readRow? (entry.wordRow showSource) = some (entry.address, entry.word) := by
  have haddress : Text.unsigned 0x100000000
      ('0' :: 'x' :: Text.hexChars 8 entry.address.toNat) = .ok entry.address.toNat :=
    Text.natural_hexChars _ 8 _ (by omega) entry.address.isLt entry.address.isLt
  have hword : Text.natural 16 0x100000000 (Text.hexChars 8 entry.word.toNat) =
      .ok entry.word.toNat :=
    Text.natural_hexChars _ 8 _ (by omega) entry.word.isLt entry.word.isLt
  obtain ⟨after, hrow⟩ := entry.exists_wordRow showSource
  have hleft : (entry.wordRow showSource).extract 2 12 =
      '0' :: 'x' :: Text.hexChars 8 entry.address.toNat := by
    have hcolumns : entry.wordRow showSource =
        [' ', ' '] ++ ('0' :: 'x' :: Text.hexChars 8 entry.address.toNat) ++
          (':' :: ' ' :: Text.hexChars 8 entry.word.toNat ++ after) := by
      simp [hrow, lead]
    exact Text.extract_of_append hcolumns rfl (by simp [Text.length_hexChars])
  have hright : (entry.wordRow showSource).extract 14 22 = Text.hexChars 8 entry.word.toNat := by
    have hcolumns : entry.wordRow showSource =
        (' ' :: ' ' :: '0' :: 'x' :: Text.hexChars 8 entry.address.toNat ++ [':', ' ']) ++
          Text.hexChars 8 entry.word.toNat ++ after := by
      simp [hrow, lead]
    exact Text.extract_of_append hcolumns (by simp [Text.length_hexChars])
      (by simp [Text.length_hexChars])
  rw [readRow?, hleft, hright, haddress, hword]
  simp [Except.toOption]

theorem filter_rows (showSource : Bool) (entry : Entry) :
    (entry.rows showSource).filter isWordRow = [entry.wordRow showSource] := by
  obtain ⟨after, hrow⟩ := entry.exists_wordRow showSource
  have hword : isWordRow (entry.wordRow showSource) = true := by
    rw [hrow]
    rfl
  have hlabel (label : String) : isWordRow (entry.labelRow label) = false := by
    simp only [labelRow, Address.text, String.toList_append, Text.toList_hex0x]
    rfl
  rw [rows, List.filter_append]
  cases entry.label with
  | none => simp [hword]
  | some label => simp [hword, hlabel label]

/-- No text of an entry goes over the end of a line. -/
structure OnLines (entry : Entry) : Prop where
  disassembly : '\n' ∉ entry.disassembly.toList
  source : '\n' ∉ entry.source.toList
  label (label : String) : entry.label = some label → '\n' ∉ label.toList

theorem OnLines.columns {entry : Entry} (h : entry.OnLines) (showSource : Bool) :
    '\n' ∉ (entry.columns showSource).toList := by
  have haddress := (Text.isToken_hex0x 8 entry.address.toNat).isLine.not_lineFeed
  have hword := (Text.isToken_hex0x 8 entry.word.toNat).isLine.not_lineFeed
  rw [Text.toList_hex0x, List.mem_cons, List.mem_cons, not_or, not_or] at hword
  have hsource : '\n' ∉ (entry.sourceColumn showSource).toList := by
    unfold sourceColumn
    split
    · simp [String.toList_append, h.source]
    · simp
  simp [Entry.columns, Address.text, Text.hex, Text.alignLeft, List.rightpad, String.toList_append,
    haddress, hword.2.2, hsource, h.disassembly]

theorem OnLines.rows {entry : Entry} (h : entry.OnLines) (showSource : Bool) :
    ∀ row ∈ entry.rows showSource, '\n' ∉ row := by
  intro row hrow
  rcases List.mem_append.mp hrow with hrow | hrow
  · obtain ⟨label, hlabel, rfl⟩ := Option.map_eq_some_iff.mp (Option.mem_toList.mp hrow)
    have haddress := (Text.isToken_hex0x 8 entry.address.toNat).isLine.not_lineFeed
    simp [labelRow, Address.text, String.toList_append, haddress, h.label label hlabel]
  · rw [List.mem_singleton.mp hrow]
    exact fun hmem => h.columns showSource (Text.mem_of_mem_trimRightChars hmem)

/-! ## One text, trimmed as a whole -/

theorem appendTo_eq (showSource : Bool) (text : String) (entry : Entry) :
    entry.appendTo showSource text = text ++ entry.render showSource := by
  rw [appendTo, Text.trimRight, String.toList_append, trimRightChars_append_columns, render,
    wordLine_eq, String.ofList_append, String.ofList_toList, String.append_assoc,
    String.append_assoc]

end Entry

theorem foldl_appendTo (showSource : Bool) (entries : List Entry) (text : String) :
    entries.foldl (Entry.appendTo showSource) text =
      text ++ String.join (entries.map (Entry.render showSource)) := by
  induction entries generalizing text with
  | nil => simp
  | cons entry entries ih =>
    rw [List.foldl_cons, ih, Entry.appendTo_eq, List.map_cons, String.join_cons,
      String.append_assoc]

theorem render_eq_join (listing : Listing) (showSource : Bool) :
    listing.render showSource = String.join (listing.entries.map (Entry.render showSource)) := by
  rw [render, foldl_appendTo, String.empty_append]

/-! ## Rows of a listing -/

theorem toList_render (listing : Listing) (showSource : Bool) :
    (listing.render showSource).toList =
      (listing.entries.flatMap (Entry.rows showSource)).flatMap (· ++ ['\n']) := by
  rw [render_eq_join, String.toList_join, List.flatMap_map, List.flatMap_assoc]
  simp only [Entry.toList_render]

theorem wordRows_render (listing : Listing) (showSource : Bool)
    (h : ∀ entry ∈ listing.entries, entry.OnLines) :
    wordRows (listing.render showSource) = listing.entries.map (Entry.wordRow showSource) := by
  have hrows : ∀ row ∈ listing.entries.flatMap (Entry.rows showSource), '\n' ∉ row := by
    intro row hrow
    obtain ⟨entry, hentry, hrow⟩ := List.mem_flatMap.mp hrow
    exact (h entry hentry).rows showSource row hrow
  have hend : isWordRow [] = false := rfl
  rw [wordRows, toList_render, Text.splitOn_flatMap _ hrows, List.filter_append,
    List.filter_flatMap, List.filter_cons_of_neg (by simp [hend]), List.filter_nil,
    List.append_nil]
  simp only [Entry.filter_rows]
  exact List.map_eq_flatMap.symm

end Listing

/-! ## Rows of a program -/

theorem Fields.isToken_operandTexts (fields : Fields) (address : Address) (shape : Shape) :
    ∀ text ∈ fields.operandTexts address shape, Text.IsToken text := by
  have hregister (field : Byte) : Text.IsToken (registerFieldName field) :=
    (Register.isPlainToken_name _).toIsToken
  have haddress (target : Address) : Text.IsToken (Address.text target) :=
    Text.isToken_hex0x 8 target.toNat
  have hamount : Text.IsToken (toString fields.shamt.toNat) :=
    Text.isToken_repr fields.shamt.toNat
  have hliteral : Text.IsToken (toString fields.signedImmediate) :=
    Text.isToken_toString fields.signedImmediate
  cases shape <;>
    simp only [operandTexts, List.forall_mem_cons, hregister, haddress, hamount, hliteral, true_and]
    <;> exact fun _ h => absurd h List.not_mem_nil

namespace InstructionSet

theorem not_lineFeed_disassemble {set : InstructionSet}
    (h : ∀ d ∈ set.toList, Text.IsField d.name) (word : Word) (address : Address) :
    '\n' ∉ (set.disassemble word address).toList := by
  unfold disassemble
  split
  · decide
  · split
    · next d hdecode =>
      rw [decode?_eq_find?] at hdecode
      have hname := (h d (List.mem_of_find?_eq_some hdecode)).not_blank '\n'
      intro hmem
      rw [Definition.disassemble, String.toList_append, String.toList_append, List.mem_append,
        List.mem_append] at hmem
      rcases hmem with (hmem | hmem) | hmem
      · exact absurd (hname hmem) (by decide)
      · exact absurd hmem (by decide)
      · rcases Text.mem_intercalate hmem with hmem | ⟨text, htext, hmem⟩
        · exact absurd hmem (by decide)
        · exact (Fields.isToken_operandTexts _ _ _ text htext).isLine.not_lineFeed hmem
    · have hword := (Text.isToken_hex0x 8 word.toNat).isLine.not_lineFeed
      simp [String.toList_append, hword]

end InstructionSet

theorem Statement.not_separator_of_declaredLabel? {line label : String}
    (h : declaredLabel? line = some label) :
    ∀ c ∈ label.toList, Text.isTokenSeparator c = false := by
  unfold declaredLabel? at h
  split at h
  · cases h
  · next first rest htokens =>
    have hfirst : Text.IsToken first := by
      apply @Text.isToken_of_mem_tokens line
      rw [htokens]
      exact List.mem_cons_self ..
    split at h
    · cases h
    · rw [labelOf?_eq_some_iff] at h
      intro c hc
      apply hfirst.not_separator
      rw [h, String.toList_append]
      exact List.mem_append_left _ hc

theorem InstructionSet.isField_name_of_mem {instructions : InstructionSet}
    (h : instructions = .standard ∨
      ∃ definitions, InstructionSet.parse definitions = .ok instructions) :
    ∀ d ∈ instructions.toList, Text.IsField d.name := by
  intro d hd
  rcases h with rfl | ⟨definitions, hparse⟩
  · exact (InstructionSet.reversible_standard.plain d hd).1.isField
  · exact (InstructionSet.writable_of_parse hparse d hd).isField_name

namespace Program

section
variable {target : Target} {text : String} {program : Program}
  (h : target.Assembles (Text.lines text) program) {instructions : InstructionSet}
include h

theorem isLine_source_of_mem {entry : Listing.Entry}
    (hentry : entry ∈ (program.listing instructions).entries) : Text.IsLine entry.source := by
  obtain ⟨slot, hslot, rfl⟩ := List.mem_map.mp hentry
  have hmem : slot.statement ∈ Statement.parseLines (Text.lines text) := by
    rw [← h.statements_eq]
    exact List.mem_map_of_mem hslot
  obtain ⟨line, hline, hparse⟩ := (Statement.mem_parseLines _ _).mp hmem
  apply Text.isLine_trim
  rw [hparse, Statement.text_parse]
  exact Text.not_lineFeed_of_mem_lines (List.mem_of_getElem? hline)

theorem not_separator_of_label {entry : Listing.Entry}
    (hentry : entry ∈ (program.listing instructions).entries) {label : String}
    (hlabel : entry.label = some label) :
    ∀ c ∈ label.toList, Text.isTokenSeparator c = false := by
  have hmem := List.mem_map_of_mem (f := Listing.Entry.label) hentry
  rw [map_label_entries h instructions, hlabel, List.mem_map] at hmem
  obtain ⟨line, -, hline⟩ := hmem
  exact Statement.not_separator_of_declaredLabel? hline

/-- The lines of a text hold no line feed, and neither do the labels, sources and names on them. -/
theorem onLines_of_mem (hnames : ∀ d ∈ instructions.toList, Text.IsField d.name)
    {entry : Listing.Entry} (hentry : entry ∈ (program.listing instructions).entries) :
    entry.OnLines where
  disassembly := by
    obtain ⟨slot, -, rfl⟩ := List.mem_map.mp hentry
    exact InstructionSet.not_lineFeed_disassemble hnames _ _
  source := (isLine_source_of_mem h hentry).not_lineFeed
  label label hlabel := by
    intro hmem
    exact absurd (not_separator_of_label h hentry hlabel '\n' hmem) (by decide)

theorem map_readRow?_wordRows (hnames : ∀ d ∈ instructions.toList, Text.IsField d.name)
    (showSource : Bool) :
    (Listing.wordRows ((program.listing instructions).render showSource)).map Listing.readRow? =
      (program.listing instructions).entries.map fun entry => some (entry.address, entry.word) := by
  rw [Listing.wordRows_render _ showSource fun entry => onLines_of_mem h hnames, List.map_map]
  exact List.map_congr_left fun entry _ => entry.readRow?_wordRow showSource

/-- The entries show the address and the word of each slot. -/
theorem map_entries_eq_mapIdx :
    ((program.listing instructions).entries.map fun entry => some (entry.address, entry.word)) =
      program.words.mapIdx fun slot word => some (program.addressOf slot, word) := by
  apply List.ext_getElem?
  intro k
  rw [listing, List.map_map, List.getElem?_map, List.getElem?_mapIdx, words, List.getElem?_map]
  cases hslot : program.slots[k]? with
  | none => rfl
  | some slot =>
    simp [Listing.Entry.ofSlot, h.address_of_getElem? hslot]

end

end Program

/-- The text of a listing is trimmed as a whole after each entry, and yet it is the text of its
entries, one after the other. An entry ends in a line feed after a character that is not blank. For a
program that was assembled from a text, and the built-in instruction set or one that was read from a
text, the rows that start with two spaces are one for each slot, in order, and their columns are read
as the address and the word of the slot. -/
theorem Listing.render_local_faithful (showSource : Bool) :
    (∀ (base : Address) (labels : List PlacedLabel) (first second : List Entry),
      render ⟨base, first ++ second, labels⟩ showSource =
        render ⟨base, first, labels⟩ showSource ++ render ⟨base, second, labels⟩ showSource) ∧
    (∀ listing : Listing,
      listing.render showSource = String.join (listing.entries.map (Entry.render showSource))) ∧
    (∀ (base : Address) (labels : List PlacedLabel) (entry : Entry), ∃ before last,
      (render ⟨base, [entry], labels⟩ showSource).toList = before ++ [last, '\n'] ∧
        Text.isBlank last = false) ∧
    ∀ (target : Target) (text : String) (program : Program),
      target.assemble (Text.lines text) = .ok program → ∀ instructions : InstructionSet,
      (instructions = .standard ∨ ∃ definitions, InstructionSet.parse definitions = .ok instructions) →
      (wordRows ((program.listing instructions).render showSource)).map readRow? =
        program.words.mapIdx fun slot word => some (program.addressOf slot, word) := by
  refine ⟨?_, ?_, ?_, ?_⟩
  · intro base labels first second
    simp only [render_eq_join, List.map_append, String.join_append]
  · intro listing
    exact listing.render_eq_join showSource
  · intro base labels entry
    rw [render_eq_join, List.map_singleton, String.join_cons, String.join_nil, String.append_empty]
    exact entry.exists_render showSource
  · intro target text program hassemble instructions hinstructions
    have h := (Target.assemble_eq_ok_iff _ _ _).mp hassemble
    rw [Program.map_readRow?_wordRows h (InstructionSet.isField_name_of_mem hinstructions),
      Program.map_entries_eq_mapIdx h]

/-- A label that has a row of its own, a blank line, and a slot at address zero. -/
theorem Listing.render_local_faithful_across_zero :
    ∃ program, Target.assemble ⟨InstructionSet.standard, 0xfffffff8⟩
        (Text.lines "a: j a\n \t\r\njr $ra # end") = .ok program ∧
      (wordRows ((program.listing InstructionSet.standard).render true)).map readRow? =
        [some (0xfffffff8, 0x083ffffe), some (0xfffffffc, 0), some (0, 0x03e00008)] := by
  obtain ⟨program, hassemble, hbase, hwords⟩ : ∃ program,
      Target.assemble ⟨InstructionSet.standard, 0xfffffff8⟩
        (Text.lines "a: j a\n \t\r\njr $ra # end") = .ok program ∧
      program.base = 0xfffffff8 ∧ program.words = [0x083ffffe, 0, 0x03e00008] := ⟨_, rfl, rfl, rfl⟩
  refine ⟨program, hassemble, ?_⟩
  obtain ⟨-, -, -, hrows⟩ := render_local_faithful true
  rw [hrows _ _ program hassemble _ (.inl rfl), hwords]
  simp only [Program.addressOf, hbase]
  rfl

end Mips
