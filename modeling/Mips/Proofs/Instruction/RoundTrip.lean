import Mips.Proofs.Instruction.Reading
import Mips.Proofs.Text.Lines
import Mips.Proofs.Text.Numerals

/-! # Writing and reading an instruction set

A written set is read as itself exactly if each of its definitions can stand in a record.

* `Definition.Writable`: a name that is one field and no comment, and codes of six bits.
* `recordsOf_toText`: the records of a written set, count first.
* `writable_of_parse`: a text gives only such definitions. -/

namespace Mips
set_option autoImplicit false

/-! ## Records -/

namespace Definition

/-- A definition that a record can hold. -/
structure Writable (d : Definition) : Prop where
  isField_name : Text.IsField d.name
  not_comment : Text.opensComment d.name = false
  opcode_le : d.opcode.toNat ≤ 63
  funct_le : d.funct.toNat ≤ 63

instance (d : Definition) : Decidable d.Writable :=
  decidable_of_iff (Text.IsField d.name ∧ Text.opensComment d.name = false ∧
      d.opcode.toNat ≤ 63 ∧ d.funct.toNat ≤ 63)
    ⟨fun h => ⟨h.1, h.2.1, h.2.2.1, h.2.2.2⟩,
      fun h => ⟨h.isField_name, h.not_comment, h.opcode_le, h.funct_le⟩⟩

/-- The fields of the record that is written for a definition. -/
def recordFields (d : Definition) : List String :=
  [d.name, d.format.letter, Text.hex0x 2 d.opcode.toNat, Text.hex0x 2 d.funct.toNat]

theorem toText_eq (d : Definition) : d.toText = " ".intercalate d.recordFields ++ "\n" := by
  simp only [toText, codesText, recordFields, String.intercalate_cons_cons,
    String.intercalate_singleton, String.append_assoc]

theorem isField_letter (format : Format) : Text.IsField format.letter := by
  cases format <;> decide

theorem Writable.isField_of_mem {d : Definition} (h : d.Writable) {field : String}
    (hfield : field ∈ d.recordFields) : Text.IsField field := by
  simp only [recordFields, List.mem_cons, List.not_mem_nil, or_false] at hfield
  rcases hfield with rfl | rfl | rfl | rfl
  · exact h.isField_name
  · exact isField_letter d.format
  · exact (Text.isToken_hex0x 2 _).isField
  · exact (Text.isToken_hex0x 2 _).isField

theorem ofFields_recordFields {d : Definition} (hopcode : d.opcode.toNat ≤ 63)
    (hfunct : d.funct.toNat ≤ 63) : ofFields d.recordFields = .ok d := by
  have hcode (n : Nat) (hn : n ≤ 63) : Text.unsigned32 (Text.hex0x 2 n) = .ok n :=
    Text.unsigned32_hex0x 2 n (by omega) (by omega) (by omega)
  rw [ofFields_eq_ok_iff]
  exact ⟨_, _, _, rfl, Format.ofLetter?_letter d.format, ⟨hcode _ hopcode, by omega⟩,
    hcode _ hfunct, by omega⟩

end Definition

/-! ## Lines -/

theorem Text.isLine_intercalate {texts : List String} (h : ∀ text ∈ texts, IsField text) :
    IsLine (" ".intercalate texts) := by
  -- The blank characters of a line are the spaces between its fields.
  have hblank : ∀ c ∈ (" ".intercalate texts).toList, isBlank c = true → c = ' ' := by
    intro c hc hblank
    rcases mem_intercalate hc with hspace | ⟨text, htext, hc⟩
    · exact List.mem_singleton.mp hspace
    · rw [(h text htext).not_blank c hc] at hblank
      cases hblank
  refine ⟨?_, ?_⟩
  · intro hmem
    exact absurd (hblank '\n' hmem (by decide)) (by decide)
  · intro hlast
    exact absurd (hblank '\r' (List.mem_of_getLast? hlast) (by decide)) (by decide)

namespace InstructionSet

/-- Rows of fields, one row on a line. -/
theorem recordsOf_join (rows : List (List String))
    (hfields : ∀ row ∈ rows, ∀ field ∈ row, Text.IsField field)
    (hrecords : ∀ row ∈ rows, DefinitionLine.isRecord row = true) :
    recordsOf (String.join (rows.map fun row => " ".intercalate row ++ "\n")) = rows := by
  have htext : (rows.map fun row => " ".intercalate row ++ "\n") =
      (rows.map (" ".intercalate ·)).map (· ++ "\n") := by
    rw [List.map_map]
    rfl
  have hlines : ∀ line ∈ rows.map (" ".intercalate ·), Text.IsLine line := by
    intro line hline
    obtain ⟨row, hrow, rfl⟩ := List.mem_map.mp hline
    exact Text.isLine_intercalate (hfields row hrow)
  have hcut : (rows.map (" ".intercalate ·)).map Text.fields = rows.map id := by
    rw [List.map_map]
    exact List.map_congr_left fun row hrow => Text.fields_intercalate row (hfields row hrow)
  rw [recordsOf, htext, Text.lines_join _ hlines, hcut, List.map_id]
  exact List.filter_eq_self.mpr hrecords

theorem toText_eq_join (set : InstructionSet) :
    set.toText = String.join (([set.size.repr] :: set.toList.map Definition.recordFields).map
      fun row => " ".intercalate row ++ "\n") := by
  have hrecords : set.toList.map Definition.toText =
      (set.toList.map Definition.recordFields).map fun row => " ".intercalate row ++ "\n" := by
    rw [List.map_map]
    exact List.map_congr_left fun d _ => d.toText_eq
  rw [toText, hrecords, List.map_cons, String.join_cons, String.intercalate_singleton]
  rfl

theorem recordsOf_toText {set : InstructionSet} (h : ∀ d ∈ set.toList, d.Writable) :
    recordsOf set.toText = [set.size.repr] :: set.toList.map Definition.recordFields := by
  have hcount := Text.isPlainToken_repr set.size
  rw [toText_eq_join]
  apply recordsOf_join
  · intro row hrow field hfield
    rcases List.mem_cons.mp hrow with rfl | hrow
    · rw [List.mem_singleton.mp hfield]
      exact hcount.isField
    · obtain ⟨d, hd, rfl⟩ := List.mem_map.mp hrow
      exact (h d hd).isField_of_mem hfield
  · intro row hrow
    rcases List.mem_cons.mp hrow with rfl | hrow
    · simp [DefinitionLine.isRecord, hcount.not_comment]
    · obtain ⟨d, hd, rfl⟩ := List.mem_map.mp hrow
      simp [DefinitionLine.isRecord, Definition.recordFields, (h d hd).not_comment]

/-! ## Both ways -/

theorem parse_toText {set : InstructionSet} (hmade : set.Made) (hsize : set.size < 2 ^ 32)
    (h : ∀ d ∈ set.toList, d.Writable) : parse set.toText = .ok set := by
  rw [parse_eq_ok_iff]
  refine ⟨hmade.ofList_toList, set.toList.map Definition.recordFields, ?_, .inr
    ⟨set.size.repr, recordsOf_toText h, Text.unsigned32_repr set.size hsize⟩⟩
  rw [List.map_map]
  exact List.map_congr_left fun d hd =>
    Definition.ofFields_recordFields (h d hd).opcode_le (h d hd).funct_le

/-- The name of a record is the first field of its line. -/
theorem writable_of_mem_recordsOf {text : String} {record : List String} {d : Definition}
    (hmem : record ∈ recordsOf text) (h : Definition.ofFields record = .ok d) : d.Writable := by
  obtain ⟨hline, hrecord⟩ := List.mem_filter.mp hmem
  obtain ⟨line, _, rfl⟩ := List.mem_map.mp hline
  obtain ⟨_, _, _, hfields, _, ⟨_, hopcode⟩, _, hfunct⟩ :=
    (Definition.ofFields_eq_ok_iff _ _).mp h
  have hname : d.name ∈ Text.fields line := by
    rw [hfields]
    exact List.mem_cons_self ..
  refine ⟨Text.isField_of_mem_fields hname, ?_, by omega, by omega⟩
  rw [hfields] at hrecord
  simpa [DefinitionLine.isRecord] using hrecord

theorem writable_of_parse {text : String} {set : InstructionSet} (h : parse text = .ok set) :
    ∀ d ∈ set.toList, d.Writable := by
  obtain ⟨_, records, hread, hrecords⟩ := (parse_eq_ok_iff text set).mp h
  intro d hd
  have hok : Except.ok d ∈ records.map Definition.ofFields := by
    rw [hread]
    exact List.mem_map_of_mem hd
  obtain ⟨record, hrecord, hok⟩ := List.mem_map.mp hok
  have hmem : record ∈ recordsOf text := by
    rcases hrecords with hrecords | ⟨count, hrecords, _⟩
    · rw [hrecords]
      exact hrecord
    · rw [hrecords]
      exact List.mem_cons_of_mem _ hrecord
  exact writable_of_mem_recordsOf hmem hok

/-- A set that can be built is read from its text as itself, in the same order and with the same
index, exactly if all its definitions can be written. This holds of every set that was read from
some text, and of the empty set. -/
theorem parse_toText_eq_ok_iff {set : InstructionSet} (hmade : set.Made)
    (hsize : set.size < 2 ^ 32) :
    (parse set.toText = .ok set ↔ ∀ d ∈ set.toList, d.Writable) ∧
      (∀ text, parse text = .ok set → parse set.toText = .ok set) ∧
      parse empty.toText = .ok empty := by
  refine ⟨⟨writable_of_parse, parse_toText hmade hsize⟩, ?_, ?_⟩
  · intro text htext
    exact parse_toText hmade hsize (writable_of_parse htext)
  · exact parse_toText .empty (by decide) fun d hd => (List.not_mem_nil hd).elim

/-- Names that look like a numeral, a label or a comment are written and read as they are. -/
theorem parse_toText_of_odd_names :
    ∃ set, ofList [⟨"0x5", .register, 63, 63⟩, ⟨",A:", .jump, 2, 0⟩, ⟨"é#", .immediate, 8, 1⟩] =
        .ok set ∧
      set.size < 2 ^ 32 ∧ (∀ d ∈ set.toList, d.Writable) ∧ parse set.toText = .ok set := by
  obtain ⟨set, hset⟩ : ∃ set,
    ofList [⟨"0x5", .register, 63, 63⟩, ⟨",A:", .jump, 2, 0⟩, ⟨"é#", .immediate, 8, 1⟩] =
      .ok set := ⟨_, rfl⟩
  have hlist := (indexed_of_ofList hset).2
  have hsize : set.size < 2 ^ 32 := by
    have hlength : set.toList.length = set.size := Array.length_toList
    rw [← hlength, hlist]
    decide
  have hwritable : ∀ d ∈ set.toList, d.Writable := by
    rw [hlist]
    decide
  exact ⟨set, hset, hsize, hwritable,
    (parse_toText_eq_ok_iff (.ofList hset) hsize).1.mpr hwritable⟩

end InstructionSet

end Mips
