import Mathlib.Data.List.Forall2
import Mips.Proofs.Instruction.Reading
import Mips.Proofs.Text.NumeralGrammar
import Mips.Proofs.Text.Trimming

/-! # The grammar of definition texts

* `significantLines`: the trimmed lines of a text that are neither empty nor a comment, with their
  numbers. The others have no part in what a text is read as.
* `Definition.IsRecord`, `Definition.Malformed`: the lines that are a record, and the fault of a
  line that is none.
* `InstructionSet.Accepts`, `InstructionSet.Refuses`: the lists of lines that make a set, and the
  fault of the others: that of the first line to blame, and a wrong count only after that.
* `InstructionSet.parse_follows_definition_grammar`: a text is read as its lines say. One more line
  that is not significant changes nothing but the numbers of the lines after it. -/

namespace Mips
set_option autoImplicit false

/-! ## Records -/

/-- The two spellings of a format. -/
def Format.spellings : Format → List String
  | .register => ["R", "r"]
  | .immediate => ["I", "i"]
  | .jump => ["J", "j"]

/-- A numeral for a code of six bits. -/
def IsCode (s : String) (code : Byte) : Prop :=
  Text.IsNumeral s code.toNat ∧ code.toNat < 64

/-- What is wrong with a text that is no code. -/
inductive CodeField.Refuses (field : CodeField) (s : String) : RecordFault → Prop
  | bad (h : ∀ n, ¬ Text.IsNumeral s n) : field.Refuses s (.badCode field s)
  | wide {n : Nat} (h : Text.IsNumeral s n) (hn : 64 ≤ n) : field.Refuses s (.wideCode field n)

namespace Definition

def IsRecord (line : String) (d : Definition) : Prop :=
  ∃ format opcode funct, Text.fields line = [d.name, format, opcode, funct] ∧
    format ∈ d.format.spellings ∧ IsCode opcode d.opcode ∧ IsCode funct d.funct

/-- What is wrong with a line that is no record. Of several faults it is the leftmost one. -/
inductive Malformed (line : String) : RecordFault → Prop
  | fields (h : (Text.fields line).length ≠ 4) : Malformed line .recordExpected
  | format {name format opcode funct : String}
      (hline : Text.fields line = [name, format, opcode, funct])
      (h : ∀ known : Format, format ∉ known.spellings) : Malformed line (.unknownFormat format)
  | opcode {name format opcode funct : String} {known : Format} {fault : RecordFault}
      (hline : Text.fields line = [name, format, opcode, funct])
      (hformat : format ∈ known.spellings) (h : CodeField.opcode.Refuses opcode fault) :
      Malformed line fault
  | funct {name format opcode funct : String} {known : Format} {code : Byte} {fault : RecordFault}
      (hline : Text.fields line = [name, format, opcode, funct])
      (hformat : format ∈ known.spellings) (hopcode : IsCode opcode code)
      (h : CodeField.funct.Refuses funct fault) : Malformed line fault

end Definition

theorem Format.ofLetter?_eq_some_iff (s : String) (format : Format) :
    ofLetter? s = some format ↔ s ∈ format.spellings := by
  constructor
  · intro h
    unfold ofLetter? at h
    split at h <;> cases h <;> decide
  · intro h
    cases format <;> simp only [spellings, List.mem_cons, List.not_mem_nil, or_false] at h <;>
      rcases h with rfl | rfl <;> rfl

theorem readFormat_eq_ok_iff_mem (s : String) (format : Format) :
    readFormat s = .ok format ↔ s ∈ format.spellings :=
  (readFormat_eq_ok_iff s format).trans (Format.ofLetter?_eq_some_iff s format)

theorem readFormat_eq_error_iff (s : String) (fault : RecordFault) :
    readFormat s = .error fault ↔
      (∀ format : Format, s ∉ format.spellings) ∧ fault = .unknownFormat s := by
  simp only [← Format.ofLetter?_eq_some_iff, ← Option.eq_none_iff_forall_ne_some]
  unfold readFormat
  cases Format.ofLetter? s with
  | none => simp [eq_comm]
  | some format => simp

theorem readCode_eq_ok_iff_isCode (field : CodeField) (s : String) (code : Byte) :
    readCode field s = .ok code ↔ IsCode s code := by
  rw [readCode_eq_ok_iff, Text.unsigned32_eq_ok_iff, IsCode]

theorem readCode_eq_error_iff (field : CodeField) (s : String) (fault : RecordFault) :
    readCode field s = .error fault ↔ field.Refuses s fault := by
  constructor
  · intro h
    unfold readCode at h
    split at h
    · next cause hs =>
      cases h
      exact .bad ((Text.exists_unsigned32_eq_error_iff s).mp ⟨cause, hs⟩)
    · next n hs =>
      split at h
      · cases h
      · next hn =>
        cases h
        exact .wide ((Text.unsigned32_eq_ok_iff s n).mp hs) (by omega)
  · intro h
    cases h with
    | bad h =>
      obtain ⟨cause, hs⟩ := (Text.exists_unsigned32_eq_error_iff s).mpr h
      rw [readCode, hs]
    | @wide n h hn =>
      rw [readCode, (Text.unsigned32_eq_ok_iff s n).mpr h]
      exact if_neg (by omega)

namespace Definition

theorem ofFields_eq_ok_iff_isRecord (line : String) (d : Definition) :
    ofFields (Text.fields line) = .ok d ↔ IsRecord line d := by
  simp only [ofFields_eq_ok_iff, Format.ofLetter?_eq_some_iff, Text.unsigned32_eq_ok_iff]
  rfl

theorem ofFields_of_length_ne {fields : List String} (h : fields.length ≠ 4) :
    ofFields fields = .error .recordExpected := by
  unfold ofFields
  split
  · exact absurd rfl h
  · rfl

/-- Format, opcode and function code are read in this order. -/
theorem ofFields_four_eq_error_iff (name format opcode funct : String) (fault : RecordFault) :
    ofFields [name, format, opcode, funct] = .error fault ↔
      ((∀ known : Format, format ∉ known.spellings) ∧ fault = .unknownFormat format) ∨
        ∃ known : Format, format ∈ known.spellings ∧
          (CodeField.opcode.Refuses opcode fault ∨
            ∃ code, IsCode opcode code ∧ CodeField.funct.Refuses funct fault) := by
  simp only [ofFields, bind_eq_error_iff, readFormat_eq_error_iff, readFormat_eq_ok_iff_mem,
    readCode_eq_error_iff, readCode_eq_ok_iff_isCode, pure, Except.pure, reduceCtorEq, and_false,
    exists_false, or_false]

theorem ofFields_eq_error_iff (line : String) (fault : RecordFault) :
    ofFields (Text.fields line) = .error fault ↔ Malformed line fault := by
  constructor
  · intro h
    by_cases hlength : (Text.fields line).length = 4
    · obtain ⟨name, format, opcode, funct, hline⟩ := List.length_eq_four.mp hlength
      rw [hline, ofFields_four_eq_error_iff] at h
      rcases h with ⟨hformat, rfl⟩ | ⟨known, hformat, hopcode | ⟨code, hopcode, hfunct⟩⟩
      · exact .format hline hformat
      · exact .opcode hline hformat hopcode
      · exact .funct hline hformat hopcode hfunct
    · rw [ofFields_of_length_ne hlength] at h
      cases h
      exact .fields hlength
  · intro h
    cases h with
    | fields hlength => exact ofFields_of_length_ne hlength
    | format hline hformat =>
      rw [hline, ofFields_four_eq_error_iff]
      exact .inl ⟨hformat, rfl⟩
    | opcode hline hformat hopcode =>
      rw [hline, ofFields_four_eq_error_iff]
      exact .inr ⟨_, hformat, .inl hopcode⟩
    | funct hline hformat hopcode hfunct =>
      rw [hline, ofFields_four_eq_error_iff]
      exact .inr ⟨_, hformat, .inr ⟨_, hopcode, hfunct⟩⟩

end Definition

/-! ## Lines -/

/-- Whether a trimmed line has a part in what a text is read as. -/
def isSignificant (line : String) : Bool :=
  line != "" && !Text.opensComment line

def significantLines (text : String) : List (Nat × String) :=
  ((Text.lines text).mapIdx fun number line => (number, Text.trim line)).filter
    fun line => isSignificant line.2

namespace DefinitionLine

def ofNumbered (line : Nat × String) : DefinitionLine :=
  ⟨line.1, Text.fields line.2⟩

theorem ofText?_eq (number : Nat) (line : String) :
    ofText? number line =
      if isSignificant (Text.trim line) then some (ofNumbered (number, Text.trim line))
      else none := by
  rw [ofText?, ofNumbered, Text.fields_trim]
  rcases Text.fields_of_trim line with ⟨htrim, hfields⟩ | ⟨first, rest, htrim, hfields, hcomment⟩
  · simp [hfields, htrim, isSignificant]
  · simp only [hfields, isSignificant, hcomment, bne_iff_ne.mpr htrim, Bool.true_and]
    cases Text.opensComment (Text.trim line) <;> rfl

theorem ofLines_eq_filterMap (lines : List String) :
    ofLines lines = lines.zipIdx.filterMap fun line => ofText? line.2 line.1 := by
  rw [ofLines, List.mapIdx_eq_zipIdx_map, List.filterMap_map]
  rfl

theorem ofLines_eq (text : String) :
    ofLines (Text.lines text) = (significantLines text).map ofNumbered := by
  rw [ofLines_eq_filterMap, significantLines, List.mapIdx_eq_zipIdx_map, List.filter_map,
    List.map_map, ← List.filterMap_eq_map, ← List.filterMap_eq_filter, List.filterMap_filterMap]
  congr 1
  funext line
  rw [ofText?_eq]
  by_cases h : isSignificant (Text.trim line.1) = true <;> simp [Option.guard, h]

end DefinitionLine

namespace InstructionSet

/-! ## The rules -/

/-- Lines that are a record each, with names that differ. -/
def AreRecords (lines : List (Nat × String)) (definitions : List Definition) : Prop :=
  List.Forall₂ (fun line d => Definition.IsRecord line.2 d) lines definitions ∧
    definitions.Pairwise NamesDiffer

/-- What is wrong with a line that follows the records of some definitions. -/
inductive Offends (definitions : List Definition) (line : Nat × String) : DefinitionFault → Prop
  | malformed {fault : RecordFault} (h : Definition.Malformed line.2 fault) :
      Offends definitions line (.malformed line.1 fault)
  | nameTaken {d e : Definition} (h : Definition.IsRecord line.2 d) (he : e ∈ definitions)
      (hname : ¬ NamesDiffer e d) : Offends definitions line (.nameTaken d.name)

/-- The fault of the first line that is to blame. -/
def FirstOffence (lines : List (Nat × String)) (fault : DefinitionFault) : Prop :=
  ∃ before line after definitions, lines = before ++ line :: after ∧
    AreRecords before definitions ∧ Offends definitions line fault

/-- The lines that make a set of the definitions. -/
inductive Accepts : List (Nat × String) → List Definition → Prop
  | records {lines : List (Nat × String)} {definitions : List Definition}
      (h : AreRecords lines definitions) : Accepts lines definitions
  | counted {line : Nat × String} {count : String} {lines : List (Nat × String)}
      {definitions : List Definition} (hline : Text.fields line.2 = [count])
      (hcount : Text.IsNumeral count definitions.length) (h : AreRecords lines definitions) :
      Accepts (line :: lines) definitions

/-- The lines that make no set, and the fault that is reported. -/
inductive Refuses : List (Nat × String) → DefinitionFault → Prop
  | countExpected {line : Nat × String} {count : String} {lines : List (Nat × String)}
      (hline : Text.fields line.2 = [count]) (h : ∀ n, ¬ Text.IsNumeral count n) :
      Refuses (line :: lines) (.malformed line.1 .countExpected)
  | records {lines : List (Nat × String)} {fault : DefinitionFault}
      (hfirst : ∀ line ∈ lines.head?, (Text.fields line.2).length ≠ 1)
      (h : FirstOffence lines fault) : Refuses lines fault
  | counted {line : Nat × String} {count : String} {n : Nat} {lines : List (Nat × String)}
      {fault : DefinitionFault} (hline : Text.fields line.2 = [count])
      (hcount : Text.IsNumeral count n) (h : FirstOffence lines fault) :
      Refuses (line :: lines) fault
  | countMismatch {line : Nat × String} {count : String} {n : Nat} {lines : List (Nat × String)}
      {definitions : List Definition} (hline : Text.fields line.2 = [count])
      (hcount : Text.IsNumeral count n) (h : AreRecords lines definitions)
      (hn : definitions.length ≠ n) :
      Refuses (line :: lines) (.malformed line.1 (.countMismatch n definitions.length))

/-! ## Records in a row -/

theorem ofRecords_eq_ok_iff_areRecords (lines : List (Nat × String))
    (definitions : List Definition) :
    (∃ set, ofRecords (lines.map .ofNumbered) = .ok set ∧ set.toList = definitions) ↔
      AreRecords lines definitions := by
  have hfields : ∀ definitions : List Definition,
      ((lines.map DefinitionLine.ofNumbered).map (·.fields)).map Definition.ofFields =
        definitions.map .ok ↔
      List.Forall₂ (fun line d => Definition.IsRecord line.2 d) lines definitions := by
    intro definitions
    simp only [← Definition.ofFields_eq_ok_iff_isRecord]
    rw [List.map_map, List.map_map, ← List.forall₂_eq_eq_eq, List.forall₂_map_left_iff,
      List.forall₂_map_right_iff]
    rfl
  simp only [ofRecords_eq_ok_iff, hfields]
  rw [AreRecords, ← exists_ofList_eq_ok_iff]
  constructor
  · rintro ⟨set, ⟨hlines, hset⟩, rfl⟩
    exact ⟨hlines, set, hset⟩
  · rintro ⟨hlines, set, hset⟩
    have hlist := (indexed_of_ofList hset).2
    rw [← hlist] at hlines hset
    exact ⟨set, ⟨hlines, hset⟩, hlist⟩

theorem addLine_eq_error_iff {set : InstructionSet} (h : set.Indexed) (line : Nat × String)
    (fault : DefinitionFault) :
    set.addLine (.ofNumbered line) = .error fault ↔ Offends set.toList line fault := by
  simp only [addLine, DefinitionLine.ofNumbered, bind_eq_error_iff, mapError_eq_error_iff,
    mapError_eq_ok_iff, Definition.ofFields_eq_error_iff, Definition.ofFields_eq_ok_iff_isRecord,
    h.add_eq_error_iff]
  constructor
  · rintro (⟨cause, hcause, rfl⟩ | ⟨d, hd, _, ⟨⟨e, he, hname⟩, rfl⟩, rfl⟩)
    · exact .malformed hcause
    · exact .nameTaken hd he hname
  · intro hline
    cases hline with
    | malformed hcause => exact .inl ⟨_, hcause, rfl⟩
    | nameTaken hd he hname => exact .inr ⟨_, hd, _, ⟨⟨_, he, hname⟩, rfl⟩, rfl⟩

theorem ofRecords_eq_error_iff (lines : List (Nat × String)) (fault : DefinitionFault) :
    ofRecords (lines.map .ofNumbered) = .error fault ↔ FirstOffence lines fault := by
  rw [ofRecords, foldlM_eq_error_iff]
  constructor
  · rintro ⟨before, line, after, set, hlines, hbefore, hline⟩
    obtain ⟨before, rest, rfl, rfl, hrest⟩ := List.map_eq_append_iff.mp hlines
    obtain ⟨line, after, rfl, rfl, rfl⟩ := List.map_eq_cons_iff.mp hrest
    have hrecords : ofRecords (before.map .ofNumbered) = .ok set := hbefore
    have hset := indexed_of_ofList ((ofRecords_eq_ok_iff _ _).mp hrecords).2
    exact ⟨before, line, after, set.toList, rfl,
      (ofRecords_eq_ok_iff_areRecords _ _).mp ⟨set, hrecords, rfl⟩,
      (addLine_eq_error_iff hset.1 line fault).mp hline⟩
  · rintro ⟨before, line, after, definitions, rfl, hbefore, hline⟩
    obtain ⟨set, hrecords, rfl⟩ := (ofRecords_eq_ok_iff_areRecords _ _).mpr hbefore
    have hset := indexed_of_ofList ((ofRecords_eq_ok_iff _ _).mp hrecords).2
    refine ⟨before.map .ofNumbered, .ofNumbered line, after.map .ofNumbered, set, ?_, hrecords,
      (addLine_eq_error_iff hset.1 line fault).mpr hline⟩
    rw [List.map_append, List.map_cons]

/-! ## Whole texts -/

theorem ofDefinitionLines_of_not_count {lines : List (Nat × String)}
    (h : ∀ line ∈ lines.head?, (Text.fields line.2).length ≠ 1) :
    ofDefinitionLines (lines.map .ofNumbered) = ofRecords (lines.map .ofNumbered) := by
  unfold ofDefinitionLines
  split
  · next number count records hlines =>
    obtain ⟨line, rest, rfl, hline, -⟩ := List.map_eq_cons_iff.mp hlines
    have hcount : Text.fields line.2 = [count] := congrArg DefinitionLine.fields hline
    exact absurd (congrArg List.length hcount) (h line rfl)
  · rfl

theorem map_ofNumbered_count {line : Nat × String} {count : String}
    (hline : Text.fields line.2 = [count]) (lines : List (Nat × String)) :
    (line :: lines).map DefinitionLine.ofNumbered =
      ⟨line.1, [count]⟩ :: lines.map DefinitionLine.ofNumbered := by
  rw [List.map_cons, DefinitionLine.ofNumbered, hline]

theorem readCount_eq_ok_iff_isNumeral (count : String) (n : Nat) :
    readCount count = .ok n ↔ Text.IsNumeral count n :=
  (readCount_eq_ok_iff count n).trans (Text.unsigned32_eq_ok_iff count n)

theorem readCount_eq_error_iff (count : String) (fault : RecordFault) :
    readCount count = .error fault ↔
      (∀ n, ¬ Text.IsNumeral count n) ∧ fault = .countExpected := by
  rw [← Text.exists_unsigned32_eq_error_iff, readCount]
  cases Text.unsigned32 count with
  | error cause => simp [eq_comm]
  | ok n => simp

theorem accepts_of_ofDefinitionLines {lines : List (Nat × String)} {set : InstructionSet}
    (h : ofDefinitionLines (lines.map .ofNumbered) = .ok set) : Accepts lines set.toList := by
  obtain ⟨records, hrecords, hlines | ⟨number, count, hlines, hcount⟩⟩ :=
    (ofDefinitionLines_eq_ok_iff _ _).mp h
  · rw [← hlines] at hrecords
    exact .records ((ofRecords_eq_ok_iff_areRecords _ _).mp ⟨set, hrecords, rfl⟩)
  · obtain ⟨line, rest, rfl, hline, rfl⟩ := List.map_eq_cons_iff.mp hlines
    exact .counted (congrArg DefinitionLine.fields hline)
      ((Text.unsigned32_eq_ok_iff _ _).mp hcount)
      ((ofRecords_eq_ok_iff_areRecords _ _).mp ⟨set, hrecords, rfl⟩)

theorem ofDefinitionLines_of_accepts {lines : List (Nat × String)} {definitions : List Definition}
    (h : Accepts lines definitions) :
    ∃ set, ofDefinitionLines (lines.map .ofNumbered) = .ok set ∧ set.toList = definitions := by
  simp only [ofDefinitionLines_eq_ok_iff]
  cases h with
  | records h =>
    obtain ⟨set, hrecords, hset⟩ := (ofRecords_eq_ok_iff_areRecords _ _).mpr h
    exact ⟨set, ⟨_, hrecords, .inl rfl⟩, hset⟩
  | @counted line count rest definitions hline hcount h =>
    obtain ⟨set, hrecords, rfl⟩ := (ofRecords_eq_ok_iff_areRecords _ _).mpr h
    exact ⟨set, ⟨_, hrecords, .inr ⟨line.1, count, map_ofNumbered_count hline rest,
      (Text.unsigned32_eq_ok_iff _ _).mpr hcount⟩⟩, rfl⟩

theorem refuses_of_ofDefinitionLines {lines : List (Nat × String)} {fault : DefinitionFault}
    (h : ofDefinitionLines (lines.map .ofNumbered) = .error fault) : Refuses lines fault := by
  -- A single field on the first line can only be a count.
  by_cases hfirst : ∀ line ∈ lines.head?, (Text.fields line.2).length ≠ 1
  · rw [ofDefinitionLines_of_not_count hfirst] at h
    exact .records hfirst ((ofRecords_eq_error_iff _ _).mp h)
  · obtain ⟨line, rest, count, rfl, hline⟩ : ∃ line rest count,
        lines = line :: rest ∧ Text.fields line.2 = [count] := by
      cases lines with
      | nil => exact absurd (by simp) hfirst
      | cons line rest =>
        have hlength : (Text.fields line.2).length = 1 := by simpa using hfirst
        obtain ⟨count, hline⟩ := List.length_eq_one_iff.mp hlength
        exact ⟨line, rest, count, rfl, hline⟩
    rw [map_ofNumbered_count hline, ofDefinitionLines, bind_eq_error_iff,
      mapError_eq_error_iff] at h
    rcases h with ⟨cause, hcause, rfl⟩ | ⟨n, hcount, h⟩
    · obtain ⟨hnone, rfl⟩ := (readCount_eq_error_iff _ _).mp hcause
      exact .countExpected hline hnone
    rw [mapError_eq_ok_iff, readCount_eq_ok_iff_isNumeral] at hcount
    rcases (bind_eq_error_iff _ _ _).mp h with h | ⟨set, hset, h⟩
    · exact .counted hline hcount ((ofRecords_eq_error_iff _ _).mp h)
    · split at h
      · cases h
      · next hsize =>
        cases h
        exact .countMismatch hline hcount
          ((ofRecords_eq_ok_iff_areRecords _ _).mp ⟨set, hset, rfl⟩) hsize

theorem ofDefinitionLines_of_refuses {lines : List (Nat × String)} {fault : DefinitionFault}
    (h : Refuses lines fault) : ofDefinitionLines (lines.map .ofNumbered) = .error fault := by
  cases h with
  | countExpected hline h =>
    rw [map_ofNumbered_count hline, ofDefinitionLines, (readCount_eq_error_iff _ _).mpr ⟨h, rfl⟩]
    rfl
  | records hfirst h =>
    rw [ofDefinitionLines_of_not_count hfirst]
    exact (ofRecords_eq_error_iff _ _).mpr h
  | counted hline hcount h =>
    rw [map_ofNumbered_count hline, ofDefinitionLines,
      (readCount_eq_ok_iff_isNumeral _ _).mpr hcount, (ofRecords_eq_error_iff _ _).mpr h]
    rfl
  | countMismatch hline hcount h hn =>
    obtain ⟨set, hset, rfl⟩ := (ofRecords_eq_ok_iff_areRecords _ _).mpr h
    rw [map_ofNumbered_count hline, ofDefinitionLines,
      (readCount_eq_ok_iff_isNumeral _ _).mpr hcount, hset]
    exact if_neg hn

end InstructionSet

/-! ## Lines without a part -/

/-- The number of a line after one line was put in front of line `position`. -/
def shiftFrom (position line : Nat) : Nat :=
  if line < position then line else line + 1

def DefinitionFault.renumber (f : Nat → Nat) : DefinitionFault → DefinitionFault
  | .malformed line fault => .malformed (f line) fault
  | .nameTaken name => .nameTaken name

namespace DefinitionLine

def renumber (f : Nat → Nat) (line : DefinitionLine) : DefinitionLine :=
  ⟨f line.line, line.fields⟩

theorem ofText?_renumber (f : Nat → Nat) (number : Nat) (line : String) :
    ofText? (f number) line = (ofText? number line).map (renumber f) := by
  rw [ofText?_eq, ofText?_eq]
  by_cases hline : isSignificant (Text.trim line) = true
  · rw [if_pos hline, if_pos hline, Option.map_some, renumber, ofNumbered, ofNumbered]
  · rw [if_neg hline, if_neg hline, Option.map_none]

theorem ofLines_insert (front back : List String) (line : String)
    (hline : isSignificant (Text.trim line) = false) :
    ofLines (front ++ line :: back) =
      (ofLines (front ++ back)).map (renumber (shiftFrom front.length)) := by
  have hskip : ofText? front.length line = none := by
    rw [ofText?_eq, hline]
    rfl
  -- Lines before the new one keep their numbers, and lines after it are one further down.
  have hfront : (front.zipIdx.filterMap fun line => ofText? line.2 line.1) =
      front.zipIdx.filterMap fun line =>
        (ofText? line.2 line.1).map (renumber (shiftFrom front.length)) := by
    apply List.filterMap_congr
    intro pair hpair
    have hlt : pair.2 < front.length := by
      have := List.snd_lt_of_mem_zipIdx hpair
      omega
    rw [← ofText?_renumber, shiftFrom, if_pos hlt]
  have hback : ((back.zipIdx (front.length + 1)).filterMap fun line => ofText? line.2 line.1) =
      (back.zipIdx front.length).filterMap fun line =>
        (ofText? line.2 line.1).map (renumber (shiftFrom front.length)) := by
    rw [List.zipIdx_succ, List.filterMap_map]
    apply List.filterMap_congr
    intro pair hpair
    have hle : ¬ pair.2 < front.length := by
      have := List.le_snd_of_mem_zipIdx hpair
      omega
    rw [← ofText?_renumber, shiftFrom, if_neg hle]
    rfl
  simp only [ofLines_eq_filterMap, List.zipIdx_append, List.zipIdx_cons, List.filterMap_append,
    List.filterMap_cons, Nat.zero_add, hskip, List.map_append, List.map_filterMap]
  rw [hfront, hback]

end DefinitionLine

namespace InstructionSet

theorem addLine_renumber (f : Nat → Nat) (set : InstructionSet) (line : DefinitionLine) :
    set.addLine (line.renumber f) = (set.addLine line).mapError (.renumber f) := by
  rw [addLine, addLine, DefinitionLine.renumber]
  cases Definition.ofFields line.fields with
  | error fault => rfl
  | ok d =>
    show (set.add d).mapError _ = ((set.add d).mapError _).mapError _
    cases set.add d <;> rfl

theorem ofRecords_renumber (f : Nat → Nat) (lines : List DefinitionLine) :
    ofRecords (lines.map (.renumber f)) = (ofRecords lines).mapError (.renumber f) := by
  have hfold : ∀ start : InstructionSet, (lines.map (.renumber f)).foldlM addLine start =
      (lines.foldlM addLine start).mapError (.renumber f) := by
    induction lines with
    | nil => exact fun start => rfl
    | cons line lines ih =>
      intro start
      rw [List.map_cons, List.foldlM_cons, List.foldlM_cons, addLine_renumber]
      cases start.addLine line with
      | error fault => rfl
      | ok next => exact ih next
  exact hfold empty

theorem ofDefinitionLines_renumber (f : Nat → Nat) (lines : List DefinitionLine) :
    ofDefinitionLines (lines.map (.renumber f)) =
      (ofDefinitionLines lines).mapError (.renumber f) := by
  cases lines with
  | nil => rfl
  | cons line records =>
    obtain ⟨number, fields⟩ := line
    rcases fields with _ | ⟨count, _ | ⟨second, fields⟩⟩
    · exact ofRecords_renumber f (⟨number, []⟩ :: records)
    · rw [List.map_cons, DefinitionLine.renumber, ofDefinitionLines, ofDefinitionLines,
        ofRecords_renumber]
      cases readCount count with
      | error fault => rfl
      | ok stated =>
        cases ofRecords records with
        | error fault => rfl
        | ok set =>
          show (if set.size = stated then _ else _) =
            Except.mapError _ (if set.size = stated then _ else _)
          split <;> rfl
    · exact ofRecords_renumber f (⟨number, count :: second :: fields⟩ :: records)

/-- A text makes a set exactly if its significant lines do, of the same definitions, and otherwise
the fault is theirs. A line that is not significant can be put in or left out at any place: the
result is the same, up to the number of the line in a fault. -/
theorem parse_follows_definition_grammar (text : String) :
    (∀ definitions, (∃ set, parse text = .ok set ∧ set.toList = definitions) ↔
      Accepts (significantLines text) definitions) ∧
    (∀ fault, parse text = .error fault ↔ Refuses (significantLines text) fault) ∧
    ∀ (other line : String) (front back : List String), Text.lines text = front ++ back →
      Text.lines other = front ++ line :: back → isSignificant (Text.trim line) = false →
      parse other = (parse text).mapError (.renumber (shiftFrom front.length)) := by
  rw [parse, DefinitionLine.ofLines_eq]
  refine ⟨?_, ?_, ?_⟩
  · intro definitions
    constructor
    · rintro ⟨set, hset, rfl⟩
      exact accepts_of_ofDefinitionLines hset
    · exact ofDefinitionLines_of_accepts
  · intro fault
    exact ⟨refuses_of_ofDefinitionLines, ofDefinitionLines_of_refuses⟩
  · intro other line front back htext hother hline
    rw [parse, ← DefinitionLine.ofLines_eq, htext, hother,
      DefinitionLine.ofLines_insert front back line hline, ofDefinitionLines_renumber]

/-- The fault in the last line of this text moves down with the line. -/
theorem parse_follows_definition_grammar_comment :
    Text.lines "1\nj J 2 0\nk X 0 0" = ["1"] ++ ["j J 2 0", "k X 0 0"] ∧
      Text.lines "1\n # jumps\nj J 2 0\nk X 0 0" =
        ["1"] ++ " # jumps" :: ["j J 2 0", "k X 0 0"] ∧
      isSignificant (Text.trim " # jumps") = false ∧
      parse "1\n # jumps\nj J 2 0\nk X 0 0" =
        (parse "1\nj J 2 0\nk X 0 0").mapError (.renumber (shiftFrom 1)) := by
  have htext : Text.lines "1\nj J 2 0\nk X 0 0" = ["1"] ++ ["j J 2 0", "k X 0 0"] := by
    decide +kernel
  have hother : Text.lines "1\n # jumps\nj J 2 0\nk X 0 0" =
      ["1"] ++ " # jumps" :: ["j J 2 0", "k X 0 0"] := by
    decide +kernel
  have hline : isSignificant (Text.trim " # jumps") = false := by
    decide +kernel
  exact ⟨htext, hother, hline,
    (parse_follows_definition_grammar _).2.2 _ _ _ _ htext hother hline⟩

end InstructionSet

end Mips
