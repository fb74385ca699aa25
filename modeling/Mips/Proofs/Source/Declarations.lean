import Mathlib.Data.List.Nodup
import Mathlib.Data.List.Induction
import Mips.Source.Symbols

/-! # What the first pass finds

The label of a line is decided by its first token, and the symbol table of a program by the first
declaration of each name.

* `DeclaredAt lines slot name`, `FirstDeclaredAt`: the declarations of a program, by position.
* `Symbols.Records lines result`: the table and the faults in `result` are those of `lines`, each
  given as a closed expression in the lines. `Symbols.records_collect` is the induction over the
  lines that all facts about the first pass come from.
* `Symbols.ofStatements_eq_firstFault`, `Symbols.ofLines_eq_ofStatements`: the pass that stops at
  the first fault, over statements and over bare lines, is the first fault of the one that does
  not stop. -/

namespace Mips
set_option autoImplicit false

/-! ## Statements by position -/

namespace Statement

@[simp] theorem slot_parse (slot : Nat) (text : String) : (parse slot text).slot = slot := rfl

@[simp] theorem text_parse (slot : Nat) (text : String) : (parse slot text).text = text := rfl

@[simp] theorem label_parse (slot : Nat) (text : String) :
    (parse slot text).label = declaredLabel? text := by
  simp only [parse, declaredLabel?]
  cases Text.tokens text with
  | nil => rfl
  | cons first rest =>
    simp only [ofTokens]
    by_cases hcomment : Text.opensComment first = true
    · simp [hcomment]
    · simp only [hcomment, Bool.false_eq_true, if_false]
      cases labelOf? first <;> rfl

theorem parseLines_append_singleton (lines : List String) (line : String) :
    parseLines (lines ++ [line]) = parseLines lines ++ [parse lines.length line] :=
  List.mapIdx_concat

@[simp] theorem length_parseLines (lines : List String) :
    (parseLines lines).length = lines.length :=
  List.length_mapIdx

@[simp] theorem getElem?_parseLines (lines : List String) (slot : Nat) :
    (parseLines lines)[slot]? = lines[slot]?.map (parse slot) :=
  List.getElem?_mapIdx

theorem map_label_parseLines (lines : List String) :
    (parseLines lines).map Statement.label = lines.map declaredLabel? := by
  apply List.ext_getElem?
  intro slot
  rw [List.getElem?_map, getElem?_parseLines, List.getElem?_map, Option.map_map]
  congr 1
  funext line
  exact label_parse slot line

theorem mem_parseLines (lines : List String) (statement : Statement) :
    statement ∈ parseLines lines ↔
      ∃ line, lines[statement.slot]? = some line ∧ statement = parse statement.slot line := by
  constructor
  · intro h
    obtain ⟨slot, hslot⟩ := List.mem_iff_getElem?.mp h
    rw [getElem?_parseLines, Option.map_eq_some_iff] at hslot
    obtain ⟨line, hline, rfl⟩ := hslot
    exact ⟨line, hline, rfl⟩
  · intro h
    obtain ⟨line, hline, hparse⟩ := h
    apply List.mem_iff_getElem?.mpr
    refine ⟨statement.slot, ?_⟩
    rw [getElem?_parseLines, hline, Option.map_some, ← hparse]

theorem slot_lt_of_mem_parseLines {lines : List String} {statement : Statement}
    (h : statement ∈ parseLines lines) : statement.slot < lines.length := by
  obtain ⟨line, hline, -⟩ := (mem_parseLines lines statement).mp h
  exact (List.getElem?_eq_some_iff.mp hline).1

theorem pairwise_parseLines (lines : List String) :
    (parseLines lines).Pairwise fun a b => a.slot < b.slot := by
  induction lines using List.reverseRecOn with
  | nil => exact List.Pairwise.nil
  | append_singleton lines line ih =>
    rw [parseLines_append_singleton, List.pairwise_append]
    refine ⟨ih, List.pairwise_singleton _ _, ?_⟩
    intro a ha b hb
    rw [List.mem_singleton.mp hb]
    exact slot_lt_of_mem_parseLines ha

end Statement

/-! ## Declarations by position -/

def DeclaredAt (lines : List String) (slot : Nat) (name : String) : Prop :=
  lines[slot]?.bind Statement.declaredLabel? = some name

/-- The line at a slot declares a name, and no line before it does. -/
def FirstDeclaredAt (lines : List String) (slot : Nat) (name : String) : Prop :=
  DeclaredAt lines slot name ∧ ∀ earlier < slot, ¬ DeclaredAt lines earlier name

/-- The slot of the first line that declares a name. -/
def firstSlot? (lines : List String) (name : String) : Option Nat :=
  lines.findIdx? fun line => Statement.declaredLabel? line == some name

/-- The names that lines declare, in order. -/
def declaredNames (lines : List String) : List String :=
  lines.filterMap Statement.declaredLabel?

theorem DeclaredAt.lt {lines : List String} {slot : Nat} {name : String}
    (h : DeclaredAt lines slot name) : slot < lines.length := by
  obtain ⟨line, hline, -⟩ := Option.bind_eq_some_iff.mp h
  exact (List.getElem?_eq_some_iff.mp hline).1

theorem declaredAt_iff_getElem (lines : List String) (slot : Nat) (name : String)
    (h : slot < lines.length) :
    DeclaredAt lines slot name ↔ Statement.declaredLabel? lines[slot] = some name := by
  rw [DeclaredAt, List.getElem?_eq_getElem h, Option.bind_some]

theorem firstSlot?_eq_some_iff (lines : List String) (slot : Nat) (name : String) :
    firstSlot? lines name = some slot ↔ FirstDeclaredAt lines slot name := by
  rw [firstSlot?, List.findIdx?_eq_some_iff_getElem]
  constructor
  · intro h
    obtain ⟨hslot, hname, hearlier⟩ := h
    refine ⟨(declaredAt_iff_getElem lines slot name hslot).mpr (beq_iff_eq.mp hname), ?_⟩
    intro earlier hlt hdeclared
    rw [declaredAt_iff_getElem lines earlier name (Nat.lt_trans hlt hslot)] at hdeclared
    exact hearlier earlier hlt (beq_iff_eq.mpr hdeclared)
  · intro h
    obtain ⟨hdeclared, hearlier⟩ := h
    have hslot := hdeclared.lt
    refine ⟨hslot, ?_, ?_⟩
    · exact beq_iff_eq.mpr ((declaredAt_iff_getElem lines slot name hslot).mp hdeclared)
    · intro earlier hlt hname
      apply hearlier earlier hlt
      exact (declaredAt_iff_getElem lines earlier name (Nat.lt_trans hlt hslot)).mpr (beq_iff_eq.mp hname)

theorem firstSlot?_lt {lines : List String} {slot : Nat} {name : String}
    (h : firstSlot? lines name = some slot) : slot < lines.length :=
  ((firstSlot?_eq_some_iff lines slot name).mp h).1.lt

theorem mem_declaredNames (lines : List String) (name : String) :
    name ∈ declaredNames lines ↔ ∃ slot, DeclaredAt lines slot name := by
  rw [declaredNames, List.mem_filterMap]
  constructor
  · intro h
    obtain ⟨line, hmem, hname⟩ := h
    obtain ⟨slot, hline⟩ := List.mem_iff_getElem?.mp hmem
    refine ⟨slot, ?_⟩
    rw [DeclaredAt, hline]
    exact hname
  · intro h
    obtain ⟨slot, hdeclared⟩ := h
    obtain ⟨line, hline, hname⟩ := Option.bind_eq_some_iff.mp hdeclared
    exact ⟨line, List.mem_of_getElem? hline, hname⟩

theorem firstSlot?_eq_none_iff (lines : List String) (name : String) :
    firstSlot? lines name = none ↔ name ∉ declaredNames lines := by
  rw [firstSlot?, List.findIdx?_eq_none_iff, declaredNames, List.mem_filterMap]
  simp

theorem DeclaredAt.exists_first {lines : List String} {slot : Nat} {name : String}
    (h : DeclaredAt lines slot name) : ∃ first ≤ slot, FirstDeclaredAt lines first name := by
  obtain ⟨first, hfirst⟩ : ∃ first, firstSlot? lines name = some first := by
    rw [← Option.ne_none_iff_exists']
    rw [Ne, firstSlot?_eq_none_iff, not_not]
    exact (mem_declaredNames lines name).mpr ⟨slot, h⟩
  rw [firstSlot?_eq_some_iff] at hfirst
  refine ⟨first, ?_, hfirst⟩
  by_contra hlt
  exact hfirst.2 slot (by omega) h

theorem firstSlot?_append (before after : List String) (name : String) :
    firstSlot? (before ++ after) name =
      (firstSlot? before name).or ((firstSlot? after name).map (· + before.length)) :=
  List.findIdx?_append

theorem declaredNames_append (before after : List String) :
    declaredNames (before ++ after) = declaredNames before ++ declaredNames after :=
  List.filterMap_append

theorem firstSlot?_append_eq_some_iff (before after : List String) (name : String) (slot : Nat)
    (h : slot < before.length) :
    firstSlot? (before ++ after) name = some slot ↔ firstSlot? before name = some slot := by
  rw [firstSlot?_append]
  cases hbefore : firstSlot? before name with
  | some first => rw [Option.some_or]
  | none =>
    rw [Option.none_or, Option.map_eq_some_iff]
    constructor
    · intro h
      obtain ⟨first, -, hfirst⟩ := h
      omega
    · intro hslot
      cases hslot

/-- A result on condition that there were no faults, and the first fault otherwise. -/
def firstFault {α : Type} (result : α × List Diagnostic) : Except Diagnostic α :=
  match result.2 with
  | [] => .ok result.1
  | diagnostic :: _ => .error diagnostic

theorem firstFault_eq_ok_iff {α : Type} (result : α × List Diagnostic) (a : α) :
    firstFault result = .ok a ↔ result.2 = [] ∧ result.1 = a := by
  obtain ⟨value, faults⟩ := result
  cases faults <;> simp [firstFault]

theorem firstFault_eq_error_iff {α : Type} (result : α × List Diagnostic)
    (diagnostic : Diagnostic) :
    firstFault result = .error diagnostic ↔ result.2.head? = some diagnostic := by
  obtain ⟨value, faults⟩ := result
  cases faults <;> simp [firstFault]

namespace Symbols

/-! ## One declaration -/

@[simp] theorem slotOf?_empty (name : String) : empty.slotOf? name = none :=
  Std.TreeMap.getElem?_emptyc

theorem insert_cases (symbols : Symbols) (name : String) (slot : Nat) :
    (name = "" ∧ symbols.insert name slot = .error .emptyLabel) ∨
    (name ≠ "" ∧ ∃ first, symbols.slotOf? name = some first ∧
      symbols.insert name slot = .error (.labelTaken name first)) ∨
    (name ≠ "" ∧ symbols.slotOf? name = none ∧ ∃ result, symbols.insert name slot = .ok result ∧
      result.toList = symbols.toList ++ [⟨name, slot⟩] ∧
      ∀ other, result.slotOf? other = if other = name then some slot else symbols.slotOf? other) := by
  unfold insert
  by_cases hempty : name = ""
  · exact .inl ⟨hempty, by simp [hempty]⟩
  · right
    rw [if_neg (by simpa using hempty)]
    cases hfirst : symbols.slotOf? name with
    | some first => exact .inl ⟨hempty, first, rfl, rfl⟩
    | none =>
      refine .inr ⟨hempty, rfl, _, rfl, Array.toList_push, ?_⟩
      intro other
      simp only [slotOf?, Std.TreeMap.getElem?_insert, Std.LawfulEqCmp.compare_eq_iff_eq]
      by_cases h : name = other
      · simp [h]
      · simp [h, Ne.symm h]

theorem declare_cases (symbols : Symbols) (slot : Nat) (line : String) :
    (Statement.declaredLabel? line = none ∧
      symbols.declare (Statement.parse slot line) = .ok symbols) ∨
    (Statement.declaredLabel? line = some "" ∧
      symbols.declare (Statement.parse slot line) = .error ⟨slot, .emptyLabel⟩) ∨
    (∃ name first, Statement.declaredLabel? line = some name ∧ name ≠ "" ∧
      symbols.slotOf? name = some first ∧
      symbols.declare (Statement.parse slot line) = .error ⟨slot, .labelTaken name first⟩) ∨
    (∃ name result, Statement.declaredLabel? line = some name ∧ name ≠ "" ∧
      symbols.slotOf? name = none ∧
      symbols.declare (Statement.parse slot line) = .ok result ∧
      result.toList = symbols.toList ++ [⟨name, slot⟩] ∧
      ∀ other, result.slotOf? other = if other = name then some slot else symbols.slotOf? other) := by
  unfold declare
  rw [Statement.label_parse, Statement.slot_parse]
  cases hlabel : Statement.declaredLabel? line with
  | none => exact .inl ⟨rfl, rfl⟩
  | some name =>
    right
    obtain ⟨rfl, hinsert⟩ | ⟨hname, first, hfirst, hinsert⟩ |
      ⟨hname, hnone, result, hinsert, hlist, hslot⟩ := insert_cases symbols name slot
    · exact .inl ⟨rfl, congrArg (Except.mapError _) hinsert⟩
    · exact .inr (.inl ⟨name, first, rfl, hname, hfirst, congrArg (Except.mapError _) hinsert⟩)
    · exact .inr (.inr ⟨name, result, rfl, hname, hnone, congrArg (Except.mapError _) hinsert,
        hlist, hslot⟩)

/-! ## The pass that goes on after a fault -/

/-- The label that a statement adds to the table of lines: a name that is not empty, at its first
declaration. -/
def acceptedLabel? (lines : List String) (statement : Statement) : Option Label :=
  match statement.label with
  | none => none
  | some name =>
    if name ≠ "" ∧ firstSlot? lines name = some statement.slot then some ⟨name, statement.slot⟩
    else none

/-- The fault of the label of a statement among lines: an empty name, or one declared before. -/
def refusedLabel? (lines : List String) (statement : Statement) : Option Diagnostic :=
  match statement.label with
  | none => none
  | some name =>
    if name = "" then some ⟨statement.slot, .emptyLabel⟩
    else
      match firstSlot? lines name with
      | none => none
      | some first =>
        if first < statement.slot then some ⟨statement.slot, .labelTaken name first⟩ else none

theorem acceptedLabel?_append (before after : List String) (statement : Statement)
    (h : statement.slot < before.length) :
    acceptedLabel? (before ++ after) statement = acceptedLabel? before statement := by
  unfold acceptedLabel?
  cases statement.label with
  | none => rfl
  | some name => simp only [firstSlot?_append_eq_some_iff before after name statement.slot h]

theorem refusedLabel?_append (before after : List String) (statement : Statement)
    (h : statement.slot < before.length) :
    refusedLabel? (before ++ after) statement = refusedLabel? before statement := by
  unfold refusedLabel?
  cases statement.label with
  | none => rfl
  | some name =>
    simp only [firstSlot?_append before after name]
    cases hbefore : firstSlot? before name with
    | some first => rfl
    | none =>
      rw [Option.none_or]
      cases firstSlot? after name with
      | none => rfl
      | some first => simp [show ¬ first + before.length < statement.slot by omega]

theorem collect_append_singleton (statements : List Statement) (statement : Statement) :
    collect (statements ++ [statement]) =
      match (collect statements).1.declare statement with
      | .ok symbols => (symbols, (collect statements).2)
      | .error diagnostic => ((collect statements).1, (collect statements).2 ++ [diagnostic]) := by
  simp only [collect, List.foldl_append, List.foldl_cons, List.foldl_nil, declareOrNote]
  cases (statements.foldl declareOrNote (empty, [])).1.declare statement with
  | ok symbols => rfl
  | error diagnostic => simp only [List.reverse_cons]

/-- A table and faults are those of lines. -/
structure Records (lines : List String) (result : Symbols × List Diagnostic) : Prop where
  slotOf? (name : String) :
    result.1.slotOf? name = if name = "" then none else firstSlot? lines name
  toList : result.1.toList = (Statement.parseLines lines).filterMap (acceptedLabel? lines)
  faults : result.2 = (Statement.parseLines lines).filterMap (refusedLabel? lines)

theorem filterMap_parseLines_append_singleton {α : Type} (f : List String → Statement → Option α)
    (hf : ∀ before after statement, statement.slot < before.length →
      f (before ++ after) statement = f before statement)
    (lines : List String) (line : String) :
    (Statement.parseLines (lines ++ [line])).filterMap (f (lines ++ [line])) =
      (Statement.parseLines lines).filterMap (f lines) ++
        (f (lines ++ [line]) (Statement.parse lines.length line)).toList := by
  -- What a statement is worth does not depend on lines further down.
  have hbefore : (Statement.parseLines lines).filterMap (f (lines ++ [line])) =
      (Statement.parseLines lines).filterMap (f lines) := by
    apply List.filterMap_congr
    intro statement hmem
    exact hf lines [line] statement (Statement.slot_lt_of_mem_parseLines hmem)
  rw [Statement.parseLines_append_singleton, List.filterMap_append, hbefore]
  cases h : f (lines ++ [line]) (Statement.parse lines.length line) with
  | none => simp [h]
  | some a => simp [h]

theorem firstSlot?_append_singleton (lines : List String) (line name : String) :
    firstSlot? (lines ++ [line]) name =
      (firstSlot? lines name).or
        (if Statement.declaredLabel? line = some name then some lines.length else none) := by
  rw [firstSlot?_append]
  congr 1
  by_cases h : Statement.declaredLabel? line = some name
  · simp [firstSlot?, h]
  · simp [firstSlot?, h]

theorem Records.append_singleton {lines : List String} {result : Symbols × List Diagnostic}
    (h : Records lines result) (line : String) :
    Records (lines ++ [line])
      (match result.1.declare (Statement.parse lines.length line) with
        | .ok symbols => (symbols, result.2)
        | .error diagnostic => (result.1, result.2 ++ [diagnostic])) := by
  have haccepted := filterMap_parseLines_append_singleton acceptedLabel? acceptedLabel?_append
    lines line
  have hrefused := filterMap_parseLines_append_singleton refusedLabel? refusedLabel?_append
    lines line
  rw [← h.toList] at haccepted
  rw [← h.faults] at hrefused
  obtain ⟨hlabel, hdeclare⟩ | ⟨hlabel, hdeclare⟩ | ⟨label, first, hlabel, hname, hfirst, hdeclare⟩ |
    ⟨label, symbols, hlabel, hname, hnone, hdeclare, hlist, hslot⟩ :=
    declare_cases result.1 lines.length line
  · rw [hdeclare]
    refine ⟨?_, ?_, ?_⟩
    · intro name
      rw [h.slotOf?, firstSlot?_append_singleton, hlabel]
      simp
    · rw [haccepted]
      simp [acceptedLabel?, hlabel]
    · rw [hrefused]
      simp [refusedLabel?, hlabel]
  · rw [hdeclare]
    refine ⟨?_, ?_, ?_⟩
    · intro name
      rw [h.slotOf?, firstSlot?_append_singleton, hlabel]
      by_cases hother : name = ""
      · simp [hother]
      · simp [hother, Ne.symm hother]
    · rw [haccepted]
      simp [acceptedLabel?, hlabel]
    · rw [hrefused]
      simp [refusedLabel?, hlabel]
  · rw [hdeclare]
    rw [h.slotOf?, if_neg hname] at hfirst
    have hlt := firstSlot?_lt hfirst
    have hagain : firstSlot? (lines ++ [line]) label = some first := by
      rw [firstSlot?_append, hfirst, Option.some_or]
    refine ⟨?_, ?_, ?_⟩
    · intro name
      rw [h.slotOf?, firstSlot?_append_singleton, hlabel]
      by_cases hother : label = name
      · rw [← hother, hfirst, Option.some_or]
      · simp [hother]
    · rw [haccepted]
      simp [acceptedLabel?, hlabel, hagain, Nat.ne_of_lt hlt]
    · rw [hrefused]
      simp [refusedLabel?, hlabel, hagain, hlt, hname]
  · rw [hdeclare]
    rw [h.slotOf?, if_neg hname] at hnone
    have hagain : firstSlot? (lines ++ [line]) label = some lines.length := by
      rw [firstSlot?_append_singleton, hnone, hlabel, Option.none_or, if_pos rfl]
    refine ⟨?_, ?_, ?_⟩
    · intro name
      rw [hslot, h.slotOf?, firstSlot?_append_singleton, hlabel]
      by_cases hother : label = name
      · rw [← hother, hnone]
        simp [hname]
      · simp [hother, Ne.symm hother]
    · rw [haccepted]
      simp [acceptedLabel?, hlabel, hagain, hlist, hname]
    · rw [hrefused]
      simp [refusedLabel?, hlabel, hagain, hname]

theorem records_collect (lines : List String) :
    Records lines (collect (Statement.parseLines lines)) := by
  induction lines using List.reverseRecOn with
  | nil => exact ⟨fun name => by simp [collect, firstSlot?, Statement.parseLines], rfl, rfl⟩
  | append_singleton lines line ih =>
    rw [Statement.parseLines_append_singleton, collect_append_singleton]
    exact ih.append_singleton line

theorem faults_collect_eq_nil_iff (lines : List String) :
    (collect (Statement.parseLines lines)).2 = [] ↔
      "" ∉ declaredNames lines ∧ (declaredNames lines).Nodup := by
  induction lines using List.reverseRecOn with
  | nil => simp [collect, declaredNames, Statement.parseLines]
  | append_singleton lines line ih =>
    rw [Statement.parseLines_append_singleton, collect_append_singleton, declaredNames_append]
    have hrecords := records_collect lines
    obtain ⟨hlabel, hdeclare⟩ | ⟨hlabel, hdeclare⟩ |
      ⟨label, first, hlabel, hname, hfirst, hdeclare⟩ |
      ⟨label, symbols, hlabel, hname, hnone, hdeclare, -, -⟩ :=
      declare_cases (collect (Statement.parseLines lines)).1 lines.length line
    · simp [hdeclare, ih, declaredNames, hlabel]
    · simp [hdeclare, declaredNames, hlabel]
    · rw [hrecords.slotOf?, if_neg hname] at hfirst
      have hmem : label ∈ declaredNames lines := by
        by_contra habsent
        rw [(firstSlot?_eq_none_iff lines label).mpr habsent] at hfirst
        cases hfirst
      have hline : declaredNames [line] = [label] := by simp [declaredNames, hlabel]
      simp [hdeclare, hline, List.nodup_append, hmem]
    · rw [hrecords.slotOf?, if_neg hname, firstSlot?_eq_none_iff] at hnone
      have hline : declaredNames [line] = [label] := by simp [declaredNames, hlabel]
      simp only [hdeclare, ih, hline, List.nodup_append, List.mem_append, List.mem_singleton]
      constructor
      · intro h
        obtain ⟨hempty, hnodup⟩ := h
        refine ⟨?_, hnodup, List.nodup_singleton label, ?_⟩
        · intro hmem
          rcases hmem with hmem | hlabelEmpty
          · exact hempty hmem
          · exact hname hlabelEmpty.symm
        · rintro name hmem other rfl rfl
          exact hnone hmem
      · intro h
        obtain ⟨hempty, hnodup, -⟩ := h
        exact ⟨fun hmem => hempty (.inl hmem), hnodup⟩

/-! ## The pass that stops at a fault -/

theorem ofStatements_eq_firstFault (statements : List Statement) :
    ofStatements statements = firstFault (collect statements) := by
  induction statements using List.reverseRecOn with
  | nil => rfl
  | append_singleton statements statement ih =>
    have hstep : ofStatements (statements ++ [statement]) =
        ofStatements statements >>= fun symbols => symbols.declare statement := by
      simp [ofStatements, List.foldlM_append]
    rw [hstep, ih, collect_append_singleton]
    cases hfaults : (collect statements).2 with
    | cons diagnostic faults =>
      have hleft : firstFault (collect statements) = .error diagnostic := by
        rw [firstFault_eq_error_iff, hfaults, List.head?_cons]
      rw [hleft]
      cases (collect statements).1.declare statement <;> rfl
    | nil =>
      have hleft : firstFault (collect statements) = .ok (collect statements).1 := by
        rw [firstFault_eq_ok_iff]
        exact ⟨hfaults, rfl⟩
      rw [hleft]
      show (collect statements).1.declare statement = _
      cases (collect statements).1.declare statement <;> rfl

theorem declareLines_eq_foldlM (lines : List String) (symbols : Symbols) (slot : Nat) :
    symbols.declareLines slot lines =
      (lines.mapIdx fun i line => Statement.parse (slot + i) line).foldlM declare symbols := by
  induction lines generalizing symbols slot with
  | nil => rfl
  | cons line rest ih =>
    have hshift : (fun i => Statement.parse (slot + (i + 1))) =
        fun i => Statement.parse (slot + 1 + i) := by
      funext i
      rw [Nat.add_assoc slot 1 i, Nat.add_comm 1 i]
    rw [List.mapIdx_cons, List.foldlM_cons, hshift, declareLines, declare]
    rw [Statement.label_parse, Statement.slot_parse, Nat.add_zero]
    cases Statement.declaredLabel? line with
    | none => exact ih symbols (slot + 1)
    | some name =>
      simp only
      cases symbols.insert name slot with
      | error fault => rfl
      | ok result => exact ih result (slot + 1)

theorem ofLines_eq_ofStatements (lines : List String) :
    ofLines lines = ofStatements (Statement.parseLines lines) := by
  rw [ofLines, declareLines_eq_foldlM, ofStatements, Statement.parseLines]
  simp only [Nat.zero_add]

theorem ofLines_eq_ok_iff (lines : List String) (symbols : Symbols) :
    ofLines lines = .ok symbols ↔
      (collect (Statement.parseLines lines)).2 = [] ∧
        (collect (Statement.parseLines lines)).1 = symbols := by
  rw [ofLines_eq_ofStatements, ofStatements_eq_firstFault, firstFault_eq_ok_iff]

/-- Lines have a table exactly if the names they declare are not empty and differ. -/
theorem exists_ofLines_eq_ok_iff (lines : List String) :
    (∃ symbols, ofLines lines = .ok symbols) ↔
      "" ∉ declaredNames lines ∧ (declaredNames lines).Nodup := by
  rw [← faults_collect_eq_nil_iff]
  simp only [ofLines_eq_ok_iff, exists_and_left, exists_eq', and_true]

theorem slotOf?_of_ofLines {lines : List String} {symbols : Symbols}
    (h : ofLines lines = .ok symbols) (name : String) :
    symbols.slotOf? name = firstSlot? lines name := by
  obtain ⟨hempty, -⟩ := (exists_ofLines_eq_ok_iff lines).mp ⟨symbols, h⟩
  obtain ⟨-, rfl⟩ := (ofLines_eq_ok_iff lines symbols).mp h
  rw [(records_collect lines).slotOf?]
  by_cases hname : name = ""
  · rw [if_pos hname, hname, (firstSlot?_eq_none_iff lines "").mpr hempty]
  · rw [if_neg hname]

/-- The label of a statement with its slot. -/
def declaration? (statement : Statement) : Option Label :=
  statement.label.map fun name => ⟨name, statement.slot⟩

theorem toList_of_ofLines {lines : List String} {symbols : Symbols}
    (h : ofLines lines = .ok symbols) :
    symbols.toList = (Statement.parseLines lines).filterMap declaration? := by
  obtain ⟨hfaults, rfl⟩ := (ofLines_eq_ok_iff lines symbols).mp h
  have hrecords := records_collect lines
  rw [hrecords.faults, List.filterMap_eq_nil_iff] at hfaults
  rw [hrecords.toList]
  apply List.filterMap_congr
  intro statement hmem
  have hfault := hfaults statement hmem
  unfold refusedLabel? at hfault
  unfold acceptedLabel? declaration?
  cases hlabel : statement.label with
  | none => rfl
  | some name =>
    rw [hlabel] at hfault
    by_cases hname : name = ""
    · simp [hname] at hfault
    · obtain ⟨line, hline, hparse⟩ := (Statement.mem_parseLines lines statement).mp hmem
      have hdeclared : DeclaredAt lines statement.slot name := by
        rw [hparse, Statement.label_parse] at hlabel
        rw [DeclaredAt, hline]
        exact hlabel
      -- The first declaration is not before this one, so it is this one.
      obtain ⟨first, hle, hfirst⟩ := hdeclared.exists_first
      rw [← firstSlot?_eq_some_iff] at hfirst
      simp only [hname, if_false, hfirst, ite_eq_right_iff, reduceCtorEq, imp_false] at hfault
      have hslot : first = statement.slot := by omega
      rw [hslot] at hfirst
      simp [hname, hfirst]

theorem map_name_of_ofLines {lines : List String} {symbols : Symbols}
    (h : ofLines lines = .ok symbols) : symbols.toList.map Label.name = declaredNames lines := by
  have hname : ∀ statement, (declaration? statement).map Label.name = statement.label := by
    intro statement
    rw [declaration?, Option.map_map]
    exact Option.map_id' ..
  calc symbols.toList.map Label.name
      = (Statement.parseLines lines).filterMap Statement.label := by
        simp only [toList_of_ofLines h, List.map_filterMap, hname]
    _ = ((Statement.parseLines lines).map Statement.label).filterMap id := by
        rw [List.filterMap_map, Function.id_comp]
    _ = declaredNames lines := by
        rw [Statement.map_label_parseLines, List.filterMap_map, Function.id_comp, declaredNames]

end Symbols

end Mips
