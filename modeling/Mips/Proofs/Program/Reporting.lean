import Mips.Proofs.Program.Passes

/-! # The first fault and all faults

A program can be assembled so that the first fault ends the run, or so that all faults are listed.
The two agree: they give the same programs, and the first fault is the head of the list.

* `LabelFault lines`, `Symbols.HoldsFirst symbols lines`: what the first pass refuses and what it
  keeps, stated by the positions of the declarations.
* `Target.Reports target lines labelFaults lineFaults`: the faults of both passes, each in the
  order of the lines, and each the fault of its own line.
* `Target.assemble_agrees_assembleAll`: both ways to assemble, by these two lists. -/

namespace Mips
set_option autoImplicit false

/-! ## Labels that are refused and labels that are kept -/

/-- What is wrong with the declarations of lines: an empty name, and a name that was declared
before, with the line that declared it first. -/
inductive LabelFault (lines : List String) : Diagnostic → Prop
  | empty {slot : Nat} (hdeclared : DeclaredAt lines slot "") :
      LabelFault lines ⟨slot, .emptyLabel⟩
  | taken {slot first : Nat} {name : String} (hname : name ≠ "")
      (hdeclared : DeclaredAt lines slot name) (hfirst : FirstDeclaredAt lines first name)
      (hlt : first < slot) : LabelFault lines ⟨slot, .labelTaken name first⟩

/-- A table holds the first declaration of each name that is not empty, in the order of the lines,
and nothing else. -/
structure Symbols.HoldsFirst (symbols : Symbols) (lines : List String) : Prop where
  slotOf?_eq_some_iff (name : String) (slot : Nat) :
    symbols.slotOf? name = some slot ↔ name ≠ "" ∧ FirstDeclaredAt lines slot name
  mem_toList_iff (label : Label) :
    label ∈ symbols.toList ↔ label.name ≠ "" ∧ FirstDeclaredAt lines label.slot label.name
  pairwise_toList : symbols.toList.Pairwise fun a b => a.slot < b.slot

theorem LabelFault.declared {lines : List String} {diagnostic : Diagnostic}
    (h : LabelFault lines diagnostic) : ∃ name, DeclaredAt lines diagnostic.slot name := by
  cases h with
  | empty hdeclared => exact ⟨"", hdeclared⟩
  | taken _ hdeclared _ _ => exact ⟨_, hdeclared⟩

theorem exists_labelFault_iff (lines : List String) (slot : Nat) :
    (∃ diagnostic, LabelFault lines diagnostic ∧ diagnostic.slot = slot) ↔
      DeclaredAt lines slot "" ∨
        ∃ name, DeclaredAt lines slot name ∧ ∃ earlier < slot, DeclaredAt lines earlier name := by
  constructor
  · intro h
    obtain ⟨diagnostic, hfault, rfl⟩ := h
    cases hfault with
    | empty hdeclared => exact .inl hdeclared
    | @taken _ first name hname hdeclared hfirst hlt =>
      exact .inr ⟨name, hdeclared, first, hlt, hfirst.1⟩
  · intro h
    rcases h with hdeclared | ⟨name, hdeclared, earlier, hlt, hearlier⟩
    · exact ⟨_, .empty hdeclared, rfl⟩
    · by_cases hname : name = ""
      · rw [hname] at hdeclared
        exact ⟨_, .empty hdeclared, rfl⟩
      · obtain ⟨first, hle, hfirst⟩ := hearlier.exists_first
        exact ⟨_, .taken hname hdeclared hfirst (by omega), rfl⟩

theorem declaredAt_iff_label (lines : List String) (slot : Nat) (name : String) :
    DeclaredAt lines slot name ↔
      ∃ statement ∈ Statement.parseLines lines,
        statement.slot = slot ∧ statement.label = some name := by
  rw [DeclaredAt, Option.bind_eq_some_iff]
  constructor
  · intro h
    obtain ⟨line, hline, hname⟩ := h
    refine ⟨Statement.parse slot line, ?_, rfl, ?_⟩
    · rw [Statement.mem_parseLines]
      exact ⟨line, hline, rfl⟩
    · rw [Statement.label_parse, hname]
  · intro h
    obtain ⟨statement, hmem, rfl, hname⟩ := h
    obtain ⟨line, hline, hparse⟩ := (Statement.mem_parseLines lines statement).mp hmem
    rw [hparse, Statement.label_parse] at hname
    exact ⟨line, hline, hname⟩

namespace Symbols

theorem refusedLabel?_eq_some_iff (lines : List String) (statement : Statement)
    (diagnostic : Diagnostic) :
    refusedLabel? lines statement = some diagnostic ↔
      (statement.label = some "" ∧ diagnostic = ⟨statement.slot, .emptyLabel⟩) ∨
      ∃ name first, name ≠ "" ∧ statement.label = some name ∧
        FirstDeclaredAt lines first name ∧ first < statement.slot ∧
        diagnostic = ⟨statement.slot, .labelTaken name first⟩ := by
  unfold refusedLabel?
  cases hlabel : statement.label with
  | none => simp
  | some name =>
    by_cases hname : name = ""
    · simp [hname, eq_comm]
    · simp only [hname, if_false]
      cases hfirst : firstSlot? lines name with
      | none =>
        simp only [reduceCtorEq, Option.some.injEq, hname, false_and, false_or, false_iff]
        intro h
        obtain ⟨other, first, -, rfl, hdeclared, -⟩ := h
        rw [← firstSlot?_eq_some_iff, hfirst] at hdeclared
        cases hdeclared
      | some first =>
        simp only [Option.some.injEq, hname, false_and, false_or, Option.ite_none_right_eq_some]
        constructor
        · intro h
          obtain ⟨hlt, rfl⟩ := h
          exact ⟨name, first, hname, rfl, (firstSlot?_eq_some_iff _ _ _).mp hfirst, hlt, rfl⟩
        · intro h
          obtain ⟨other, first', -, rfl, hdeclared, hlt, rfl⟩ := h
          rw [← firstSlot?_eq_some_iff, hfirst] at hdeclared
          cases hdeclared
          exact ⟨hlt, rfl⟩

theorem mem_faults_collect_iff (lines : List String) (diagnostic : Diagnostic) :
    diagnostic ∈ (collect (Statement.parseLines lines)).2 ↔ LabelFault lines diagnostic := by
  rw [(records_collect lines).faults, List.mem_filterMap]
  simp only [refusedLabel?_eq_some_iff]
  constructor
  · intro h
    obtain ⟨statement, hmem, ⟨hlabel, rfl⟩ | ⟨name, first, hname, hlabel, hfirst, hlt, rfl⟩⟩ := h
    · exact .empty ((declaredAt_iff_label _ _ _).mpr ⟨statement, hmem, rfl, hlabel⟩)
    · exact .taken hname ((declaredAt_iff_label _ _ _).mpr ⟨statement, hmem, rfl, hlabel⟩)
        hfirst hlt
  · intro hfault
    cases hfault with
    | empty hdeclared =>
      obtain ⟨statement, hmem, rfl, hlabel⟩ := (declaredAt_iff_label _ _ _).mp hdeclared
      exact ⟨statement, hmem, .inl ⟨hlabel, rfl⟩⟩
    | @taken _ first name hname hdeclared hfirst hlt =>
      obtain ⟨statement, hmem, rfl, hlabel⟩ := (declaredAt_iff_label _ _ _).mp hdeclared
      exact ⟨statement, hmem, .inr ⟨name, first, hname, hlabel, hfirst, hlt, rfl⟩⟩

theorem pairwise_faults_collect (lines : List String) :
    (collect (Statement.parseLines lines)).2.Pairwise fun a b => a.slot < b.slot := by
  rw [(records_collect lines).faults, List.pairwise_filterMap]
  apply (Statement.pairwise_parseLines lines).imp
  intro a b hlt da ha db hb
  have hslot : ∀ statement diagnostic, refusedLabel? lines statement = some diagnostic →
      diagnostic.slot = statement.slot := by
    intro statement diagnostic h
    obtain ⟨-, h⟩ | ⟨name, first, -, -, -, -, h⟩ := (refusedLabel?_eq_some_iff _ _ _).mp h
    · rw [h]
    · rw [h]
  rw [hslot a da ha, hslot b db hb]
  exact hlt

theorem acceptedLabel?_eq_some_iff (lines : List String) (statement : Statement) (label : Label) :
    acceptedLabel? lines statement = some label ↔
      statement.label = some label.name ∧ label.slot = statement.slot ∧ label.name ≠ "" ∧
        FirstDeclaredAt lines label.slot label.name := by
  obtain ⟨name, slot⟩ := label
  unfold acceptedLabel?
  cases hlabel : statement.label with
  | none => simp
  | some other =>
    simp only [Option.ite_none_right_eq_some, Option.some.injEq, firstSlot?_eq_some_iff,
      Label.mk.injEq]
    constructor
    · intro h
      obtain ⟨⟨hname, hfirst⟩, rfl, rfl⟩ := h
      exact ⟨rfl, rfl, hname, hfirst⟩
    · intro h
      obtain ⟨rfl, rfl, hname, hfirst⟩ := h
      exact ⟨⟨hname, hfirst⟩, rfl, rfl⟩

theorem holdsFirst_collect (lines : List String) :
    (collect (Statement.parseLines lines)).1.HoldsFirst lines := by
  have hrecords := records_collect lines
  refine ⟨?_, ?_, ?_⟩
  · intro name slot
    rw [hrecords.slotOf?]
    by_cases hname : name = ""
    · simp [hname]
    · rw [if_neg hname, firstSlot?_eq_some_iff]
      exact ⟨fun h => ⟨hname, h⟩, fun h => h.2⟩
  · intro label
    rw [hrecords.toList, List.mem_filterMap]
    simp only [acceptedLabel?_eq_some_iff]
    constructor
    · intro h
      obtain ⟨statement, -, -, -, hname, hfirst⟩ := h
      exact ⟨hname, hfirst⟩
    · intro h
      obtain ⟨hname, hfirst⟩ := h
      obtain ⟨statement, hmem, hslot, hlabel⟩ := (declaredAt_iff_label _ _ _).mp hfirst.1
      exact ⟨statement, hmem, hlabel, hslot.symm, hname, hfirst⟩
  · rw [hrecords.toList, List.pairwise_filterMap]
    apply (Statement.pairwise_parseLines lines).imp
    intro a b hlt la ha lb hb
    obtain ⟨-, hla, -⟩ := (acceptedLabel?_eq_some_iff _ _ _).mp ha
    obtain ⟨-, hlb, -⟩ := (acceptedLabel?_eq_some_iff _ _ _).mp hb
    rw [hla, hlb]
    exact hlt

end Symbols

namespace Target

/-! ## The second pass -/

theorem slot_of_encodeStatement_eq_error {target : Target} {symbols : Symbols}
    {statement : Statement} {diagnostic : Diagnostic}
    (h : target.encodeStatement symbols statement = .error diagnostic) :
    diagnostic.slot = statement.slot := by
  unfold encodeStatement at h
  split at h
  · cases hencoding : target.encodeInstruction symbols statement.slot _ with
    | error fault =>
      rw [hencoding] at h
      cases h
      rfl
    | ok encoding =>
      rw [hencoding] at h
      cases h
  · cases h

def slotFault? (target : Target) (symbols : Symbols) (statement : Statement) : Option Diagnostic :=
  match target.encodeSlot symbols statement with
  | .ok _ => none
  | .error diagnostic => some diagnostic

theorem slotFault?_eq_some_iff (target : Target) (symbols : Symbols) (statement : Statement)
    (diagnostic : Diagnostic) :
    target.slotFault? symbols statement = some diagnostic ↔
      target.encodeStatement symbols statement = .error diagnostic := by
  rw [← encodeSlot_eq_error_iff, slotFault?]
  cases target.encodeSlot symbols statement <;> simp

theorem encodeAll_cons (target : Target) (symbols : Symbols) (statement : Statement)
    (rest : List Statement) :
    target.encodeAll symbols (statement :: rest) =
      match target.encodeSlot symbols statement with
      | .ok slot => (slot :: (target.encodeAll symbols rest).1, (target.encodeAll symbols rest).2)
      | .error diagnostic =>
        ((target.encodeAll symbols rest).1, diagnostic :: (target.encodeAll symbols rest).2) :=
  rfl

theorem faults_encodeAll (target : Target) (symbols : Symbols) (statements : List Statement) :
    (target.encodeAll symbols statements).2 =
      statements.filterMap (target.slotFault? symbols) := by
  induction statements with
  | nil => rfl
  | cons statement rest ih =>
    rw [List.filterMap_cons, ← ih, slotFault?, encodeAll_cons]
    cases target.encodeSlot symbols statement <;> rfl

theorem mapM_encodeSlot_eq_firstFault (target : Target) (symbols : Symbols)
    (statements : List Statement) :
    statements.mapM (target.encodeSlot symbols) =
      firstFault (target.encodeAll symbols statements) := by
  induction statements with
  | nil => rfl
  | cons statement rest ih =>
    rw [List.mapM_cons, ih, encodeAll_cons]
    cases target.encodeSlot symbols statement with
    | error diagnostic => rfl
    | ok slot =>
      simp only [firstFault]
      cases (target.encodeAll symbols rest).2 <;> rfl

theorem pairwise_faults_encodeAll (target : Target) (symbols : Symbols) (lines : List String) :
    (target.encodeAll symbols (Statement.parseLines lines)).2.Pairwise
      fun a b => a.slot < b.slot := by
  rw [faults_encodeAll, List.pairwise_filterMap]
  apply (Statement.pairwise_parseLines lines).imp
  intro a b hlt da ha db hb
  rw [slotFault?_eq_some_iff] at ha hb
  rw [slot_of_encodeStatement_eq_error ha, slot_of_encodeStatement_eq_error hb]
  exact hlt

theorem mem_faults_encodeAll_iff (target : Target) (symbols : Symbols) (lines : List String)
    (diagnostic : Diagnostic) :
    diagnostic ∈ (target.encodeAll symbols (Statement.parseLines lines)).2 ↔
      ∃ line, lines[diagnostic.slot]? = some line ∧
        target.encodeStatement symbols (Statement.parse diagnostic.slot line) =
          .error diagnostic := by
  rw [faults_encodeAll, List.mem_filterMap]
  simp only [slotFault?_eq_some_iff]
  constructor
  · intro h
    obtain ⟨statement, hmem, hfault⟩ := h
    obtain ⟨line, hline, hparse⟩ := (Statement.mem_parseLines lines statement).mp hmem
    have hslot := slot_of_encodeStatement_eq_error hfault
    rw [hparse] at hfault
    rw [hslot]
    exact ⟨line, hline, hfault⟩
  · intro h
    obtain ⟨line, hline, hfault⟩ := h
    refine ⟨_, ?_, hfault⟩
    rw [Statement.mem_parseLines]
    exact ⟨line, hline, rfl⟩

/-! ## Both passes -/

/-- The faults of lines in both passes. Each list is in the order of the lines, and each fault is
that of the line it names. The second pass uses the table of first declarations, whether or not the
first pass had faults. -/
structure Reports (target : Target) (lines : List String)
    (labelFaults lineFaults : List Diagnostic) : Prop where
  pairwise_labelFaults : labelFaults.Pairwise fun a b => a.slot < b.slot
  pairwise_lineFaults : lineFaults.Pairwise fun a b => a.slot < b.slot
  slot_lt : ∀ diagnostic ∈ labelFaults ++ lineFaults, diagnostic.slot < lines.length
  mem_labelFaults (diagnostic : Diagnostic) :
    diagnostic ∈ labelFaults ↔ LabelFault lines diagnostic
  exists_labelFault (slot : Nat) :
    (∃ diagnostic ∈ labelFaults, diagnostic.slot = slot) ↔
      DeclaredAt lines slot "" ∨
        ∃ name, DeclaredAt lines slot name ∧ ∃ earlier < slot, DeclaredAt lines earlier name
  mem_lineFaults : ∃ symbols : Symbols, symbols.HoldsFirst lines ∧
    ∀ (slot : Nat) (line : String), lines[slot]? = some line → ∀ diagnostic,
      target.encodeStatement symbols (Statement.parse slot line) = .error diagnostic ↔
        diagnostic ∈ lineFaults ∧ diagnostic.slot = slot

/-- The table that the first pass leaves, and the faults it lists. -/
def firstPass (lines : List String) : Symbols × List Diagnostic :=
  Symbols.collect (Statement.parseLines lines)

/-- The slots that the second pass encodes, and the faults it lists. -/
def secondPass (target : Target) (lines : List String) : List Slot × List Diagnostic :=
  target.encodeAll (firstPass lines).1 (Statement.parseLines lines)

theorem reports_passes (target : Target) (lines : List String) :
    target.Reports lines (firstPass lines).2 (target.secondPass lines).2 := by
  have hlabel : ∀ diagnostic, diagnostic ∈ (firstPass lines).2 ↔ LabelFault lines diagnostic :=
    Symbols.mem_faults_collect_iff lines
  have hline : ∀ diagnostic, diagnostic ∈ (target.secondPass lines).2 ↔ _ :=
    target.mem_faults_encodeAll_iff (firstPass lines).1 lines
  refine ⟨Symbols.pairwise_faults_collect lines, target.pairwise_faults_encodeAll _ lines, ?_,
    hlabel, ?_, (firstPass lines).1, Symbols.holdsFirst_collect lines, ?_⟩
  · intro diagnostic hmem
    rcases List.mem_append.mp hmem with hmem | hmem
    · obtain ⟨name, hdeclared⟩ := ((hlabel diagnostic).mp hmem).declared
      exact hdeclared.lt
    · obtain ⟨line, hget, -⟩ := (hline diagnostic).mp hmem
      exact (List.getElem?_eq_some_iff.mp hget).1
  · intro slot
    rw [← exists_labelFault_iff]
    simp only [hlabel]
  · intro slot line hget diagnostic
    rw [hline]
    constructor
    · intro hfault
      have hslot : diagnostic.slot = slot := slot_of_encodeStatement_eq_error hfault
      rw [← hslot] at hget hfault
      exact ⟨⟨line, hget, hfault⟩, hslot⟩
    · intro h
      obtain ⟨⟨line', hget', hfault⟩, rfl⟩ := h
      rw [hget] at hget'
      cases hget'
      exact hfault

theorem assemble_eq_passes (target : Target) (lines : List String) :
    target.assemble lines =
      firstFault (⟨target.base, (target.secondPass lines).1, (firstPass lines).1⟩,
        (firstPass lines).2 ++ (target.secondPass lines).2) := by
  rw [assemble_eq, Symbols.ofLines_eq_ofStatements, Symbols.ofStatements_eq_firstFault]
  change (firstFault (firstPass lines) >>= _) = _
  cases hlabel : (firstPass lines).2 with
  | cons diagnostic faults =>
    have hfirst : firstFault (firstPass lines) = .error diagnostic := by
      rw [firstFault_eq_error_iff, hlabel, List.head?_cons]
    rw [hfirst]
    rfl
  | nil =>
    have hfirst : firstFault (firstPass lines) = .ok (firstPass lines).1 := by
      rw [firstFault_eq_ok_iff]
      exact ⟨hlabel, rfl⟩
    rw [hfirst, List.nil_append]
    change ((Statement.parseLines lines).mapM (target.encodeSlot (firstPass lines).1)).map _ = _
    rw [mapM_encodeSlot_eq_firstFault]
    change (firstFault (target.secondPass lines)).map _ = _
    unfold firstFault
    cases (target.secondPass lines).2 <;> rfl

theorem assembleAll_eq_passes (target : Target) (lines : List String) :
    target.assembleAll lines =
      if (firstPass lines).2 ++ (target.secondPass lines).2 = [] then
        .ok ⟨target.base, (target.secondPass lines).1, (firstPass lines).1⟩
      else .error ((firstPass lines).2 ++ (target.secondPass lines).2) := by
  have hall : target.assembleAll lines =
      if ((firstPass lines).2 ++ (target.secondPass lines).2).isEmpty then
        .ok ⟨target.base, (target.secondPass lines).1, (firstPass lines).1⟩
      else .error ((firstPass lines).2 ++ (target.secondPass lines).2) := rfl
  rw [hall]
  simp only [List.isEmpty_iff]

theorem assembleAll_eq_ok_iff (target : Target) (lines : List String) (program : Program) :
    target.assembleAll lines = .ok program ↔ target.Assembles lines program := by
  rw [← assemble_eq_ok_iff, assemble_eq_passes, assembleAll_eq_passes, firstFault_eq_ok_iff]
  by_cases hnone : (firstPass lines).2 ++ (target.secondPass lines).2 = []
  · simp [hnone]
  · simp [hnone]

/-- Both ways to assemble give the same programs. Where there is none, all faults are listed, those
of the first pass before those of the second, and the first fault is the head of the list. -/
theorem assemble_agrees_assembleAll (target : Target) (lines : List String) :
    ∃ labelFaults lineFaults, target.Reports lines labelFaults lineFaults ∧
      (∀ program, target.assemble lines = .ok program ↔ target.assembleAll lines = .ok program) ∧
      (∀ faults, target.assembleAll lines = .error faults ↔
        faults = labelFaults ++ lineFaults ∧ faults ≠ []) ∧
      (∀ diagnostic, target.assemble lines = .error diagnostic ↔
        ∃ others, target.assembleAll lines = .error (diagnostic :: others)) := by
  refine ⟨_, _, target.reports_passes lines, ?_⟩
  rw [assemble_eq_passes, assembleAll_eq_passes]
  cases (firstPass lines).2 ++ (target.secondPass lines).2 with
  | nil => simp [firstFault]
  | cons diagnostic faults =>
    simp only [firstFault, reduceCtorEq, if_false, Except.error.injEq, List.cons.injEq, ne_eq]
    refine ⟨fun _ => trivial, ?_, ?_⟩
    · intro others
      constructor
      · intro h
        rw [← h]
        exact ⟨rfl, List.cons_ne_nil diagnostic faults⟩
      · intro h
        exact h.1.symm
    · intro other
      constructor
      · intro h
        exact ⟨faults, h, rfl⟩
      · intro h
        obtain ⟨others, h, -⟩ := h
        exact h

end Target

end Mips
