import Mips.Proofs.FirstOfEach
import Mips.Proofs.Source.Declarations

/-! # Symbol tables over time

A table grows by one label after another. A label with an empty name or with a name that is taken is
refused, and the table stays as it was.

* `offer`, `offerAll`: the table after one label was offered to it, and after a list of them. The
  first pass over a program is such a run (`collect_eq_offerAll`).
* `Distinct`: the labels have different names, and the index holds them. An offer keeps this, and so
  does a list of offers.
* `Consistent`: what follows for the ways in which a table is read and written.
* `labels_and_index_agree`: every table is consistent whatever was offered to it, and in the table
  of a program names and slots determine each other. -/

namespace Mips.Symbols
set_option autoImplicit false

/-! ## Offers -/

/-- The table with a label at its end, or as it was if the label is refused. -/
def offer (symbols : Symbols) (label : Label) : Symbols :=
  match symbols.insert label.name label.slot with
  | .ok result => result
  | .error _ => symbols

def offerAll (symbols : Symbols) (labels : List Label) : Symbols :=
  labels.foldl offer symbols

theorem offer_of_insert_eq_ok {symbols result : Symbols} {label : Label}
    (h : symbols.insert label.name label.slot = .ok result) : symbols.offer label = result := by
  rw [offer, h]

theorem offer_of_insert_eq_error {symbols : Symbols} {label : Label} {fault : LineFault}
    (h : symbols.insert label.name label.slot = .error fault) : symbols.offer label = symbols := by
  rw [offer, h]

theorem declareOrNote_eq_offer (acc : Symbols × List Diagnostic) (statement : Statement) :
    (declareOrNote acc statement).1 =
      match declaration? statement with
      | some label => acc.1.offer label
      | none => acc.1 := by
  unfold declareOrNote declare declaration?
  cases statement.label with
  | none => rfl
  | some name =>
    dsimp only [Option.map_some, offer]
    cases acc.1.insert name statement.slot <;> rfl

theorem foldl_declareOrNote_eq_offerAll (statements : List Statement)
    (acc : Symbols × List Diagnostic) :
    (statements.foldl declareOrNote acc).1 =
      acc.1.offerAll (statements.filterMap declaration?) := by
  induction statements generalizing acc with
  | nil => rfl
  | cons statement statements ih =>
    rw [List.foldl_cons, ih, declareOrNote_eq_offer]
    cases hlabel : declaration? statement with
    | none => rw [List.filterMap_cons_none hlabel]
    | some label =>
      rw [List.filterMap_cons_some hlabel]
      rfl

/-- The first pass over a program offers the labels of the statements to the empty table. -/
theorem collect_eq_offerAll (statements : List Statement) :
    (collect statements).1 = empty.offerAll (statements.filterMap declaration?) :=
  foldl_declareOrNote_eq_offerAll statements (empty, [])

/-! ## Distinct names -/

def sameName (a b : Label) : Bool :=
  a.name == b.name

/-- The labels of a table have names, no two the same, and the index holds their slots. -/
structure Distinct (symbols : Symbols) : Prop where
  name_ne_empty (label : Label) : label ∈ symbols.toList → label.name ≠ ""
  nodup_names : (symbols.toList.map Label.name).Nodup
  slotOf?_eq_some_iff (name : String) (slot : Nat) :
    symbols.slotOf? name = some slot ↔ ⟨name, slot⟩ ∈ symbols.toList

theorem distinct_empty : empty.Distinct where
  name_ne_empty label hmem := by cases hmem
  nodup_names := List.nodup_nil
  slotOf?_eq_some_iff name slot := by
    rw [slotOf?_empty]
    constructor
    · intro h
      cases h
    · intro h
      cases h

namespace Distinct
variable {symbols : Symbols}

theorem slotOf?_eq_none_iff (h : symbols.Distinct) (name : String) :
    symbols.slotOf? name = none ↔ ∀ label ∈ symbols.toList, label.name ≠ name := by
  rw [Option.eq_none_iff_forall_ne_some]
  constructor
  · rintro hnone label hmem rfl
    exact hnone label.slot ((h.slotOf?_eq_some_iff _ _).mpr hmem)
  · intro hall slot hslot
    exact hall _ ((h.slotOf?_eq_some_iff _ _).mp hslot) rfl

theorem insert {result : Symbols} {name : String} {slot : Nat} (h : symbols.Distinct)
    (hinsert : symbols.insert name slot = .ok result) : result.Distinct := by
  obtain ⟨-, herror⟩ | ⟨-, first, -, herror⟩ | ⟨hname, hnone, result', hok, hlist, hslot⟩ :=
    insert_cases symbols name slot
  · rw [herror] at hinsert
    cases hinsert
  · rw [herror] at hinsert
    cases hinsert
  · rw [hok] at hinsert
    cases hinsert
    have hfree := (h.slotOf?_eq_none_iff name).mp hnone
    refine ⟨?_, ?_, ?_⟩
    · intro label hmem
      rw [hlist, List.mem_append, List.mem_singleton] at hmem
      rcases hmem with hmem | rfl
      · exact h.name_ne_empty label hmem
      · exact hname
    · rw [hlist, List.map_append, List.nodup_append]
      refine ⟨h.nodup_names, List.nodup_singleton _, ?_⟩
      intro other hother taken htaken
      obtain ⟨label, hmem, rfl⟩ := List.mem_map.mp hother
      rw [List.mem_singleton.mp htaken]
      exact hfree label hmem
    · intro other place
      rw [hslot, hlist, List.mem_append, List.mem_singleton, ← h.slotOf?_eq_some_iff]
      by_cases hother : other = name
      · simp [hother, hnone, eq_comm]
      · simp [hother]

theorem offer (h : symbols.Distinct) (label : Label) : (symbols.offer label).Distinct := by
  cases hinsert : symbols.insert label.name label.slot with
  | ok result =>
    rw [offer_of_insert_eq_ok hinsert]
    exact h.insert hinsert
  | error fault =>
    rw [offer_of_insert_eq_error hinsert]
    exact h

/-- What one offer keeps, a list of offers keeps. -/
theorem offerAll (h : symbols.Distinct) (labels : List Label) :
    (symbols.offerAll labels).Distinct :=
  List.foldlRecOn labels Symbols.offer h fun _ hkept label _ => hkept.offer label

theorem insert_eq_error_iff (h : symbols.Distinct) (name : String) (slot : Nat)
    (fault : LineFault) :
    symbols.insert name slot = .error fault ↔
      (name = "" ∧ fault = .emptyLabel) ∨
        ∃ first, ⟨name, first⟩ ∈ symbols.toList ∧ fault = .labelTaken name first := by
  simp only [← h.slotOf?_eq_some_iff]
  obtain ⟨rfl, hinsert⟩ | ⟨hname, first, hfirst, hinsert⟩ |
    ⟨hname, hnone, result, hinsert, -, -⟩ := insert_cases symbols name slot
  · have hnone : symbols.slotOf? "" = none := by
      rw [h.slotOf?_eq_none_iff]
      exact h.name_ne_empty
    simp [hinsert, hnone, eq_comm]
  · simp [hinsert, hname, hfirst, eq_comm]
  · simp [hinsert, hname, hnone]

theorem toList_offer (h : symbols.Distinct) (label : Label) :
    (symbols.offer label).toList =
      if (label.name != "") = true ∧ symbols.toList.any (sameName label) = false then
        symbols.toList ++ [label]
      else symbols.toList := by
  have hfree : symbols.toList.any (sameName label) = false ↔
      symbols.slotOf? label.name = none := by
    rw [h.slotOf?_eq_none_iff, List.any_eq_false]
    refine forall₂_congr fun other _ => not_congr ?_
    rw [sameName, beq_iff_eq, eq_comm]
  simp only [hfree, bne_iff_ne]
  obtain ⟨hname, hinsert⟩ | ⟨-, first, hfirst, hinsert⟩ |
    ⟨hname, hnone, result, hinsert, hlist, -⟩ := insert_cases symbols label.name label.slot
  · rw [offer_of_insert_eq_error hinsert, if_neg fun hboth => hboth.1 hname]
  · rw [offer_of_insert_eq_error hinsert, hfirst, if_neg (by simp)]
  · rw [offer_of_insert_eq_ok hinsert, if_pos ⟨hname, hnone⟩, hlist]

end Distinct

theorem toList_offerAll_empty (labels : List Label) :
    (empty.offerAll labels).toList =
      (labels.filter fun label => label.name != "").eraseDupsBy sameName :=
  toList_foldl_offer offer toList Distinct (fun label => label.name != "") sameName
    (fun _ label h => h.offer label) (fun _ label h => h.toList_offer label) labels
    distinct_empty rfl

/-! ## Consistency -/

/-- The index and the labels of a table say the same. -/
structure Consistent (symbols : Symbols) : Prop extends symbols.Distinct where
  /-- The index holds the names and the slots of the labels, and nothing else. -/
  mem_index_iff (name : String) (slot : Nat) :
    (name, slot) ∈ symbols.index.toList ↔ ⟨name, slot⟩ ∈ symbols.toList
  /-- A slot leads to the first name that came for it. -/
  nameAt?_eq_some_iff (name : String) (slot : Nat) : symbols.nameAt? slot = some name ↔
    ∃ before after, symbols.toList = before ++ ⟨name, slot⟩ :: after ∧
      ∀ label ∈ before, label.slot ≠ slot
  insert_eq_error_iff (name : String) (slot : Nat) (fault : LineFault) :
    symbols.insert name slot = .error fault ↔
      (name = "" ∧ fault = .emptyLabel) ∨
        ∃ first, ⟨name, first⟩ ∈ symbols.toList ∧ fault = .labelTaken name first
  /-- A refused label leaves no trace. -/
  offer_eq (label : Label) (fault : LineFault) :
    symbols.insert label.name label.slot = .error fault → symbols.offer label = symbols

theorem nameAt?_eq_some_iff (symbols : Symbols) (name : String) (slot : Nat) :
    symbols.nameAt? slot = some name ↔
      ∃ before after, symbols.toList = before ++ ⟨name, slot⟩ :: after ∧
        ∀ label ∈ before, label.slot ≠ slot := by
  rw [nameAt?, ← Array.find?_toList, Option.map_eq_some_iff]
  simp only [List.find?_eq_some_iff_append, beq_iff_eq, Bool.not_eq_true', beq_eq_false_iff_ne]
  constructor
  · rintro ⟨label, ⟨rfl, before, after, hlist, hbefore⟩, rfl⟩
    exact ⟨before, after, hlist, hbefore⟩
  · rintro ⟨before, after, hlist, hbefore⟩
    exact ⟨⟨name, slot⟩, ⟨rfl, before, after, hlist, hbefore⟩, rfl⟩

theorem Distinct.consistent {symbols : Symbols} (h : symbols.Distinct) : symbols.Consistent where
  toDistinct := h
  mem_index_iff name slot := by
    rw [Std.TreeMap.mem_toList_iff_getElem?_eq_some]
    exact h.slotOf?_eq_some_iff name slot
  nameAt?_eq_some_iff := symbols.nameAt?_eq_some_iff
  insert_eq_error_iff := h.insert_eq_error_iff
  offer_eq _ _ := offer_of_insert_eq_error

/-! ## Tables of programs -/

theorem distinct_of_ofLines {lines : List String} {symbols : Symbols}
    (h : ofLines lines = .ok symbols) : symbols.Distinct := by
  obtain ⟨-, rfl⟩ := (ofLines_eq_ok_iff lines symbols).mp h
  rw [collect_eq_offerAll]
  exact distinct_empty.offerAll _

theorem pairwise_of_ofLines {lines : List String} {symbols : Symbols}
    (h : ofLines lines = .ok symbols) : symbols.toList.Pairwise fun a b => a.slot < b.slot := by
  rw [toList_of_ofLines h, List.pairwise_filterMap]
  apply (Statement.pairwise_parseLines lines).imp
  intro a b hlt first hfirst second hsecond
  obtain ⟨_, -, rfl⟩ := Option.map_eq_some_iff.mp hfirst
  obtain ⟨_, -, rfl⟩ := Option.map_eq_some_iff.mp hsecond
  exact hlt

/-- Where slots increase, no label stands before another one for its slot. -/
theorem nameAt?_eq_some_iff_mem {symbols : Symbols}
    (h : symbols.toList.Pairwise fun a b => a.slot < b.slot) (name : String) (slot : Nat) :
    symbols.nameAt? slot = some name ↔ ⟨name, slot⟩ ∈ symbols.toList := by
  rw [nameAt?_eq_some_iff]
  constructor
  · rintro ⟨before, after, hlist, -⟩
    rw [hlist]
    exact List.mem_append_right before List.mem_cons_self
  · intro hmem
    obtain ⟨before, after, hlist⟩ := List.append_of_mem hmem
    refine ⟨before, after, hlist, ?_⟩
    intro label hlabel
    rw [hlist, List.pairwise_append] at h
    exact Nat.ne_of_lt (h.2.2 label hlabel _ List.mem_cons_self)

/-- Whatever labels are offered to the empty table, its index and its labels agree. The labels stand
in the order in which they came, without those that have no name or a name that came before. In the
table of a program the slots increase, so that its names and its slots determine each other. -/
theorem labels_and_index_agree :
    (∀ labels : List Label, (empty.offerAll labels).Consistent ∧
      (empty.offerAll labels).toList =
        (labels.filter fun label => label.name != "").eraseDupsBy sameName) ∧
    ∀ (lines : List String) (symbols : Symbols), ofLines lines = .ok symbols →
      symbols.Consistent ∧ symbols.toList.Pairwise (fun a b => a.slot < b.slot) ∧
        ∀ (name : String) (slot : Nat),
          symbols.nameAt? slot = some name ↔ symbols.slotOf? name = some slot := by
  refine ⟨?_, ?_⟩
  · intro labels
    exact ⟨(distinct_empty.offerAll labels).consistent, toList_offerAll_empty labels⟩
  · intro lines symbols h
    have hdistinct := distinct_of_ofLines h
    have hpairwise := pairwise_of_ofLines h
    refine ⟨hdistinct.consistent, hpairwise, ?_⟩
    intro name slot
    rw [nameAt?_eq_some_iff_mem hpairwise, hdistinct.slotOf?_eq_some_iff]

/-- Of six labels three are refused, one of them since its name came before for another slot. -/
theorem labels_and_index_agree_start :
    (empty.offerAll [⟨"start", 1⟩, ⟨"", 2⟩, ⟨"loop", 3⟩, ⟨"start", 4⟩, ⟨"end", 3⟩,
        ⟨"loop", 3⟩]).toList = [⟨"start", 1⟩, ⟨"loop", 3⟩, ⟨"end", 3⟩] ∧
      ∃ symbols, ofLines ["# header", "start:", "", "loop: nop", "j loop"] = .ok symbols ∧
        symbols.slotOf? "loop" = some 3 ∧ symbols.nameAt? 3 = some "loop" := by
  refine ⟨(labels_and_index_agree.1 _).2.trans (by decide), ?_⟩
  obtain ⟨symbols, h⟩ := (exists_ofLines_eq_ok_iff
    ["# header", "start:", "", "loop: nop", "j loop"]).mpr (by decide)
  have hslot : symbols.slotOf? "loop" = some 3 :=
    (slotOf?_of_ofLines h "loop").trans (by decide)
  obtain ⟨-, -, hinverse⟩ := labels_and_index_agree.2 _ symbols h
  exact ⟨symbols, h, hslot, (hinverse "loop" 3).mpr hslot⟩

end Mips.Symbols
