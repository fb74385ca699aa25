import Mips.Proofs.Command.Loading
import Mips.Proofs.Text.Lines

/-! # Lines and their ends

A source is written line by line, each line with an end of its own after it: a line feed, or a
carriage return and a line feed. The last line may do without one unless it is empty.

* `Text.WrittenAs lines text`: the texts that lines can be written as.
* `Text.writtenAs_lines`: every text is written so from the lines it is cut into.
* `Text.lines_of_writtenAs`: a text is cut into the lines it was written from, if these hold no line
  feed and no carriage return.
* `Target.assemble_of_writtenAs`: so it assembles like the list of its lines. -/

namespace Mips
set_option autoImplicit false

namespace Text

inductive LineEnd where
  | lineFeed
  | returnLineFeed
deriving DecidableEq, Repr

def LineEnd.text : LineEnd → String
  | .lineFeed => "\n"
  | .returnLineFeed => "\r\n"

inductive WrittenAs : List String → String → Prop
  | nil : WrittenAs [] ""
  /-- The last line, without an end. -/
  | last (line : String) : line ≠ "" → WrittenAs [line] line
  | cons (line : String) (ending : LineEnd) {lines : List String} {text : String} :
      WrittenAs lines text → WrittenAs (line :: lines) (line ++ ending.text ++ text)

/-! ## Cutting a written text -/

theorem lines_eq_singleton (line : String) (hne : line ≠ "") (hfeed : '\n' ∉ line.toList) :
    lines line = [line] := by
  have hchars : line.toList ≠ [] := mt String.toList_eq_nil_iff.mp hne
  obtain ⟨cs, c, hline⟩ : ∃ cs c, line.toList = cs ++ [c] :=
    ⟨_, _, (List.dropLast_concat_getLast hchars).symm⟩
  rw [hline, List.mem_append, List.mem_singleton, not_or] at hfeed
  have hc : (c == '\n') = false := beq_eq_false_iff_ne.mpr fun h => hfeed.2 h.symm
  -- The last character opens the line, and those before it go in front.
  have hfold : line.toList.foldr LineScan.push ⟨[], false⟩ = ⟨[line.toList], false⟩ := by
    have hlast : LineScan.push c ⟨[], false⟩ = ⟨[[c]], false⟩ := by
      simp [LineScan.push, hc, prependToFirst]
    rw [hline, List.foldr_append, List.foldr_cons, List.foldr_nil, hlast,
      foldr_push_of_not_lineFeed cs [c] [] false hfeed.1 (by simp)]
    rfl
  rw [lines, lineChars, hfold, List.map_singleton, String.ofList_toList]

theorem lines_of_writtenAs {written : List String} {text : String} (h : WrittenAs written text)
    (hplain : ∀ line ∈ written, '\n' ∉ line.toList ∧ '\r' ∉ line.toList) :
    lines text = written := by
  induction h with
  | nil => rfl
  | last line hne => exact lines_eq_singleton line hne (hplain line (List.mem_singleton_self _)).1
  | cons line ending _ ih =>
    obtain ⟨hfeed, hreturn⟩ := hplain line (List.mem_cons_self ..)
    have hline : IsLine line := ⟨hfeed, fun hlast => hreturn (List.mem_of_getLast? hlast)⟩
    have hending : ending.text = "\n" ∨ ending.text = "\r\n" := by
      cases ending with
      | lineFeed => exact .inl rfl
      | returnLineFeed => exact .inr rfl
    rw [lines_append line _ _ hline hending, ih fun l hl => hplain l (List.mem_cons_of_mem line hl)]

/-! ## Every text is written from its lines -/

/-- The text that a scan has read. After a line feed the end of the first line is known, and a
carriage return may still become a part of it. -/
structure LineScan.Reads (scan : LineScan) (cs : List Char) : Prop where
  writtenAs : WrittenAs (scan.lines.map String.ofList) (String.ofList cs)
  ended : scan.atLineFeed = true → ∃ (rest : List (List Char)) (after : List Char),
    scan.lines = [] :: rest ∧ cs = '\n' :: after ∧
      WrittenAs (rest.map String.ofList) (String.ofList after)

theorem WrittenAs.cons_empty {lines : List String} {cs : List Char} (ending : LineEnd)
    (h : WrittenAs lines (String.ofList cs)) :
    WrittenAs ("" :: lines) (String.ofList (ending.text.toList ++ cs)) := by
  have hcons := WrittenAs.cons "" ending h
  rw [String.empty_append] at hcons
  rw [String.ofList_append, String.ofList_toList]
  exact hcons

/-- A character in front of a text goes to the first line. -/
theorem WrittenAs.prepend {lines : List (List Char)} {cs : List Char} (c : Char)
    (h : WrittenAs (lines.map String.ofList) (String.ofList cs)) :
    WrittenAs ((prependToFirst c lines).map String.ofList) (String.ofList (c :: cs)) := by
  generalize hwritten : lines.map String.ofList = written at h
  generalize htext : String.ofList cs = text at h
  rw [String.ofList_cons, htext]
  cases h with
  | nil =>
    rw [List.map_eq_nil_iff.mp hwritten, ← String.ofList_nil, ← String.ofList_cons]
    exact .last (String.ofList [c]) (by simp)
  | last line hne =>
    obtain ⟨first, rfl, rfl⟩ := List.map_eq_singleton_iff.mp hwritten
    rw [prependToFirst, List.map_cons, String.ofList_cons]
    exact .last _ (by simp)
  | cons line ending hrest =>
    obtain ⟨first, rest, rfl, rfl, rfl⟩ := List.map_eq_cons_iff.mp hwritten
    rw [prependToFirst, List.map_cons, String.ofList_cons, ← String.append_assoc,
      ← String.append_assoc]
    exact .cons _ ending hrest

theorem LineScan.Reads.push {scan : LineScan} {cs : List Char} (h : scan.Reads cs) (c : Char) :
    (scan.push c).Reads (c :: cs) := by
  unfold LineScan.push
  split
  · next hfeed =>
    rw [beq_iff_eq.mp hfeed]
    exact ⟨h.writtenAs.cons_empty .lineFeed, fun _ => ⟨_, _, rfl, rfl, h.writtenAs⟩⟩
  · split
    · next hreturn =>
      rw [Bool.and_eq_true, beq_iff_eq] at hreturn
      obtain ⟨rest, after, hlines, rfl, hafter⟩ := h.ended hreturn.2
      rw [hreturn.1, hlines]
      exact ⟨hafter.cons_empty .returnLineFeed, by simp⟩
    · exact ⟨h.writtenAs.prepend c, by simp⟩

theorem writtenAs_lines (text : String) : WrittenAs (lines text) text := by
  have hreads (cs : List Char) : (cs.foldr LineScan.push ⟨[], false⟩).Reads cs := by
    induction cs with
    | nil => exact ⟨.nil, by simp⟩
    | cons c cs ih => exact ih.push c
  have h := (hreads text.toList).writtenAs
  rw [String.ofList_toList] at h
  exact h

end Text

/-- Lines that hold no line feed and no carriage return are what a text is cut into exactly if they
are written as this text, whatever the ends they were given. Then the text assembles like the list
of lines, at every base address and with every instruction set, and so does a file with this text. -/
theorem Target.assemble_of_writtenAs (lines : List String) (text : String)
    (hplain : ∀ line ∈ lines, '\n' ∉ line.toList ∧ '\r' ∉ line.toList) :
    (Text.lines text = lines ↔ Text.WrittenAs lines text) ∧
    (Text.WrittenAs lines text → ∀ target : Target,
      target.assemble (Text.lines text) = target.assemble lines ∧
      target.assembleAll (Text.lines text) = target.assembleAll lines ∧
      ∀ (console : Console) (source : String), console.files.read.text source = .ok text →
        (ListOptions.loadProgram target source).exec console =
          ((target.assemble lines).mapError .line, console)) := by
  have hlines (h : Text.WrittenAs lines text) : Text.lines text = lines :=
    Text.lines_of_writtenAs h hplain
  refine ⟨⟨?_, hlines⟩, ?_⟩
  · rintro rfl
    exact Text.writtenAs_lines text
  · intro hwritten target
    rw [hlines hwritten]
    refine ⟨rfl, rfl, ?_⟩
    intro console source hread
    rw [ListOptions.silent_loadProgram, ListOptions.answer_loadProgram_of_text hread,
      hlines hwritten]

/-- Empty lines at the start and in the middle, both ends of a line, and none at the last one. -/
theorem Target.assemble_of_writtenAs_mixed :
    let lines := ["", "a:", "", "j a"]
    let text := "\na:\r\n\nj a"
    Text.WrittenAs lines text ∧ Text.lines text = lines ∧
      Target.assemble ⟨InstructionSet.standard, 0x00400000⟩ (Text.lines text) =
        Target.assemble ⟨InstructionSet.standard, 0x00400000⟩ lines := by
  intro lines text
  have hplain : ∀ line ∈ lines, '\n' ∉ line.toList ∧ '\r' ∉ line.toList := by decide
  have hwritten : Text.WrittenAs lines text :=
    .cons "" .lineFeed (.cons "a:" .returnLineFeed (.cons "" .lineFeed (.last "j a" (by decide))))
  obtain ⟨hlines, hassemble⟩ := assemble_of_writtenAs lines text hplain
  exact ⟨hwritten, hlines.mpr hwritten, (hassemble hwritten _).1⟩

end Mips
