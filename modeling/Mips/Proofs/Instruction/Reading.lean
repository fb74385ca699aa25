import Mips.Instruction.SetText
import Mips.Proofs.Instruction.Lookup

/-! # What a definition text is read as

* `ofFields_eq_ok_iff`: which fields are a record, and of what definition.
* `recordsOf`: the fields of the lines that are neither blank nor a comment. They decide whether a
  text is read and as what set (`parse_eq_ok_iff`).
* `Made`: the sets that can be built at all. Such a set is the one its definitions give when they
  are added to an empty set again (`Made.ofList_toList`), so it is given by them. -/

namespace Mips
set_option autoImplicit false

/-! ## One record -/

theorem readFormat_eq_ok_iff (text : String) (format : Format) :
    readFormat text = .ok format ↔ Format.ofLetter? text = some format := by
  unfold readFormat
  cases Format.ofLetter? text with
  | none => simp
  | some other => simp

theorem readCode_eq_ok_iff (field : CodeField) (text : String) (code : Byte) :
    readCode field text = .ok code ↔
      Text.unsigned32 text = .ok code.toNat ∧ code.toNat < 64 := by
  unfold readCode
  cases Text.unsigned32 text with
  | error fault => simp
  | ok value =>
    by_cases hvalue : value < 64
    · simp only [hvalue, if_true, Except.ok.injEq, ← BitVec.toNat_inj, BitVec.toNat_ofNat]
      omega
    · simp only [hvalue, if_false, Except.ok.injEq, reduceCtorEq, false_iff]
      omega

theorem readCount_eq_ok_iff (text : String) (count : Nat) :
    readCount text = .ok count ↔ Text.unsigned32 text = .ok count := by
  unfold readCount
  cases Text.unsigned32 text with
  | error fault => simp
  | ok value => simp

theorem Definition.ofFields_eq_ok_iff (fields : List String) (d : Definition) :
    Definition.ofFields fields = .ok d ↔
      ∃ format opcode funct, fields = [d.name, format, opcode, funct] ∧
        Format.ofLetter? format = some d.format ∧
        (Text.unsigned32 opcode = .ok d.opcode.toNat ∧ d.opcode.toNat < 64) ∧
        Text.unsigned32 funct = .ok d.funct.toNat ∧ d.funct.toNat < 64 := by
  constructor
  · intro h
    unfold Definition.ofFields at h
    split at h
    · next name format opcode funct =>
      obtain ⟨_, hformat, h⟩ := (bind_eq_ok_iff _ _ _).mp h
      obtain ⟨_, hopcode, h⟩ := (bind_eq_ok_iff _ _ _).mp h
      obtain ⟨_, hfunct, h⟩ := (bind_eq_ok_iff _ _ _).mp h
      cases h
      exact ⟨format, opcode, funct, rfl, (readFormat_eq_ok_iff _ _).mp hformat,
        (readCode_eq_ok_iff _ _ _).mp hopcode, (readCode_eq_ok_iff _ _ _).mp hfunct⟩
    · cases h
  · intro h
    obtain ⟨format, opcode, funct, rfl, hformat, hopcode, hfunct⟩ := h
    simp only [Definition.ofFields, (readFormat_eq_ok_iff _ _).mpr hformat,
      (readCode_eq_ok_iff .opcode _ _).mpr hopcode, (readCode_eq_ok_iff .funct _ _).mpr hfunct]
    rfl

/-! ## Lines -/

namespace DefinitionLine

/-- The fields of a line that is neither blank nor a comment. -/
def isRecord (fields : List String) : Bool :=
  fields.head?.any fun first => !Text.opensComment first

theorem map_fields_ofText? (line : Nat) (text : String) :
    (ofText? line text).map (·.fields) = Option.guard isRecord (Text.fields text) := by
  unfold ofText?
  cases Text.fields text with
  | nil => rfl
  | cons first rest =>
    by_cases hfirst : Text.opensComment first = true <;> simp [isRecord, Option.guard, hfirst]

theorem map_fields_ofLines (lines : List String) :
    (ofLines lines).map (·.fields) = (lines.map Text.fields).filter isRecord := by
  have hpairs : lines.map Text.fields =
      lines.zipIdx.map fun pair => Text.fields pair.1 := by
    have hfirst := congrArg (List.map Text.fields) (List.zipIdx_map_fst 0 lines)
    rw [List.map_map] at hfirst
    exact hfirst.symm
  rw [ofLines, List.mapIdx_eq_zipIdx_map, List.filterMap_map, List.map_filterMap,
    ← List.filterMap_eq_filter, hpairs, List.filterMap_map]
  congr 1
  funext pair
  exact map_fields_ofText? pair.2 pair.1

end DefinitionLine

namespace InstructionSet

theorem addLine_eq_ok_iff (set result : InstructionSet) (line : DefinitionLine) :
    set.addLine line = .ok result ↔
      ∃ d, Definition.ofFields line.fields = .ok d ∧ set.add d = .ok result := by
  rw [addLine, bind_eq_ok_iff]
  simp only [mapError_eq_ok_iff]

theorem foldlM_addLine_eq_ok_iff (lines : List DefinitionLine) (start set : InstructionSet) :
    lines.foldlM addLine start = .ok set ↔
      ∃ definitions : List Definition,
        (lines.map (·.fields)).map Definition.ofFields = definitions.map .ok ∧
        definitions.foldlM add start = .ok set := by
  induction lines generalizing start with
  | nil =>
    constructor
    · intro h
      exact ⟨[], rfl, congrArg Except.ok (Except.ok.inj h)⟩
    · intro h
      obtain ⟨definitions, hfields, h⟩ := h
      rw [List.map_eq_nil_iff.mp hfields.symm] at h
      exact congrArg Except.ok (Except.ok.inj h)
  | cons line lines ih =>
    rw [List.foldlM_cons, bind_eq_ok_iff]
    simp only [addLine_eq_ok_iff, ih, List.map_cons]
    constructor
    · intro h
      obtain ⟨next, ⟨d, hd, hadd⟩, definitions, hfields, hrest⟩ := h
      refine ⟨d :: definitions, ?_, ?_⟩
      · rw [hd, hfields]
        rfl
      · rw [List.foldlM_cons, bind_eq_ok_iff]
        exact ⟨next, hadd, hrest⟩
    · intro h
      obtain ⟨definitions, hfields, hrest⟩ := h
      obtain ⟨d, definitions, rfl, hd, hfields⟩ := List.map_eq_cons_iff.mp hfields.symm
      rw [List.foldlM_cons, bind_eq_ok_iff] at hrest
      obtain ⟨next, hadd, hrest⟩ := hrest
      exact ⟨next, ⟨d, hd.symm, hadd⟩, definitions, hfields.symm, hrest⟩

/-- The records in lines of fields are those of the definitions of a set. -/
theorem ofRecords_eq_ok_iff (lines : List DefinitionLine) (set : InstructionSet) :
    ofRecords lines = .ok set ↔
      (lines.map (·.fields)).map Definition.ofFields = set.toList.map .ok ∧
        ofList set.toList = .ok set := by
  rw [ofRecords, foldlM_addLine_eq_ok_iff]
  constructor
  · intro h
    obtain ⟨definitions, hfields, hset⟩ := h
    have hset : ofList definitions = .ok set := hset
    rw [(indexed_of_ofList hset).2]
    exact ⟨hfields, hset⟩
  · intro h
    exact ⟨set.toList, h⟩

/-- A count is no record, so that a line with a single field can only be the count. -/
theorem ofDefinitionLines_eq_ok_iff (lines : List DefinitionLine) (set : InstructionSet) :
    ofDefinitionLines lines = .ok set ↔
      ∃ records, ofRecords records = .ok set ∧
        (lines = records ∨ ∃ line count, lines = ⟨line, [count]⟩ :: records ∧
          Text.unsigned32 count = .ok set.size) := by
  constructor
  · intro h
    unfold ofDefinitionLines at h
    split at h
    · next line count records =>
      obtain ⟨stated, hcount, h⟩ := (bind_eq_ok_iff _ _ _).mp h
      obtain ⟨found, hrecords, h⟩ := (bind_eq_ok_iff _ _ _).mp h
      split at h
      · next hsize =>
        cases h
        refine ⟨records, hrecords, .inr ⟨line, count, rfl, ?_⟩⟩
        rw [mapError_eq_ok_iff, readCount_eq_ok_iff] at hcount
        rw [hsize]
        exact hcount
      · cases h
    · exact ⟨lines, h, .inl rfl⟩
  · intro h
    obtain ⟨records, hrecords, rfl | ⟨line, count, rfl, hcount⟩⟩ := h
    · unfold ofDefinitionLines
      split
      · next line count rest =>
        obtain ⟨hfields, _⟩ := (ofRecords_eq_ok_iff _ _).mp hrecords
        obtain ⟨d, _, _, hd, _⟩ := List.map_eq_cons_iff.mp hfields.symm
        cases hd
      · exact hrecords
    · rw [ofDefinitionLines, (readCount_eq_ok_iff count set.size).mpr hcount, hrecords]
      exact if_pos rfl

/-- The fields of the lines of a text that are neither blank nor a comment. -/
def recordsOf (text : String) : List (List String) :=
  ((Text.lines text).map Text.fields).filter DefinitionLine.isRecord

theorem parse_eq_ok_iff (text : String) (set : InstructionSet) :
    parse text = .ok set ↔
      ofList set.toList = .ok set ∧
        ∃ records : List (List String), records.map Definition.ofFields = set.toList.map .ok ∧
          (recordsOf text = records ∨ ∃ count, recordsOf text = [count] :: records ∧
            Text.unsigned32 count = .ok set.size) := by
  have hrecords : (DefinitionLine.ofLines (Text.lines text)).map (·.fields) = recordsOf text :=
    DefinitionLine.map_fields_ofLines _
  rw [parse, ofDefinitionLines_eq_ok_iff]
  simp only [ofRecords_eq_ok_iff]
  constructor
  · intro h
    obtain ⟨lines, ⟨hfields, hset⟩, hlines⟩ := h
    refine ⟨hset, lines.map (·.fields), hfields, ?_⟩
    rcases hlines with hlines | ⟨line, count, hlines, hcount⟩
    · left
      rw [← hrecords, hlines]
    · right
      refine ⟨count, ?_, hcount⟩
      rw [← hrecords, hlines]
      rfl
  · intro h
    obtain ⟨hset, records, hfields, hlines⟩ := h
    rcases hlines with hlines | ⟨count, hlines, hcount⟩
    · refine ⟨_, ⟨?_, hset⟩, .inl rfl⟩
      rw [hrecords, hlines]
      exact hfields
    · rw [← hrecords] at hlines
      obtain ⟨line, lines, heq, hline, hrest⟩ := List.map_eq_cons_iff.mp hlines
      refine ⟨lines, ⟨?_, hset⟩, .inr ⟨line.line, count, ?_, hcount⟩⟩
      · rw [hrest]
        exact hfields
      · rw [heq, ← hline]

/-! ## Sets that can be built -/

/-- A set that some sequence of the operations on sets has as its result. -/
inductive Made : InstructionSet → Prop
  | empty : Made empty
  | standard : Made standard
  | ofList {definitions : List Definition} {set : InstructionSet}
      (h : ofList definitions = .ok set) : Made set
  | parse {text : String} {set : InstructionSet} (h : parse text = .ok set) : Made set
  | add {set result : InstructionSet} {d : Definition} (hset : Made set)
      (h : set.add d = .ok result) : Made result

theorem Made.ofList_toList {set : InstructionSet} (h : set.Made) :
    InstructionSet.ofList set.toList = .ok set := by
  induction h with
  | empty => rfl
  | standard => exact InstructionSet.ofList_toList ofList_standardDefinitions
  | ofList h => exact InstructionSet.ofList_toList h
  | parse h => exact ((parse_eq_ok_iff _ _).mp h).1
  | @add set result d _ h ih =>
    have hset : set.toList.foldlM InstructionSet.add InstructionSet.empty = .ok set := ih
    rw [toList_of_add_eq_ok h, InstructionSet.ofList, List.foldlM_append, bind_eq_ok_iff]
    refine ⟨set, hset, ?_⟩
    rw [List.foldlM_cons, h]
    rfl

theorem Made.indexed {set : InstructionSet} (h : set.Made) : set.Indexed :=
  (indexed_of_ofList h.ofList_toList).1

end InstructionSet

end Mips
