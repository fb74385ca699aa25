import Mips.Proofs.FirstOfEach
import Mips.Proofs.Instruction.Reading

/-! # Instruction sets over time

A set grows by one definition after another. A definition whose name is taken is refused, and the
set stays as it was.

* `offer`, `offerAll`: the set after one definition was offered to it, and after a list of them.
* `Consistent`: the index and the definitions of a set say the same, so that a name leads to the one
  definition spelled like it, and an addition is refused exactly if its name leads to one.
* `consistent_offerAll`: every set is consistent whatever was offered to it, and its
  definitions are all those that were offered, in order, without the ones whose name came before. -/

namespace Mips.InstructionSet
set_option autoImplicit false

/-! ## Offers -/

/-- The set with a definition at its end, or as it was if the name is taken. -/
def offer (set : InstructionSet) (d : Definition) : InstructionSet :=
  match set.add d with
  | .ok result => result
  | .error _ => set

def offerAll (set : InstructionSet) (definitions : List Definition) : InstructionSet :=
  definitions.foldl offer set

theorem offer_of_add_eq_ok {set result : InstructionSet} {d : Definition}
    (h : set.add d = .ok result) : set.offer d = result := by
  rw [offer, h]

theorem offer_of_add_eq_error {set : InstructionSet} {d : Definition} {taken : NameTaken}
    (h : set.add d = .error taken) : set.offer d = set := by
  rw [offer, h]

theorem Made.offer {set : InstructionSet} (h : set.Made) (d : Definition) :
    (set.offer d).Made := by
  cases hadd : set.add d with
  | ok result =>
    rw [offer_of_add_eq_ok hadd]
    exact h.add hadd
  | error taken =>
    rw [offer_of_add_eq_error hadd]
    exact h

/-- What one offer keeps, a list of offers keeps. -/
theorem Made.offerAll {set : InstructionSet} (h : set.Made) (definitions : List Definition) :
    (set.offerAll definitions).Made := by
  induction definitions generalizing set with
  | nil => exact h
  | cons d definitions ih => exact ih (h.offer d)

theorem offerAll_of_foldlM {start set : InstructionSet} {definitions : List Definition}
    (h : definitions.foldlM add start = .ok set) : start.offerAll definitions = set := by
  induction definitions generalizing start with
  | nil => exact Except.ok.inj h
  | cons d definitions ih =>
    rw [List.foldlM_cons, bind_eq_ok_iff] at h
    obtain ⟨next, hadd, hrest⟩ := h
    have hstep : start.offerAll (d :: definitions) = (start.offer d).offerAll definitions := rfl
    rw [hstep, offer_of_add_eq_ok hadd, ih hrest]

/-- A set is what its own definitions make of the empty set. -/
theorem Made.eq_offerAll {set : InstructionSet} (h : set.Made) :
    InstructionSet.empty.offerAll set.toList = set :=
  offerAll_of_foldlM h.ofList_toList

/-! ## Names -/

/-- Whether two definitions have one name, up to letter case. -/
def sameName (a b : Definition) : Bool :=
  Text.foldCase a.name == Text.foldCase b.name

theorem not_namesDiffer_iff (a b : Definition) : ¬ NamesDiffer a b ↔ sameName b a = true := by
  rw [NamesDiffer, Decidable.not_not, sameName, beq_iff_eq, eq_comm]

theorem Made.pairwise {set : InstructionSet} (h : set.Made) :
    set.toList.Pairwise NamesDiffer :=
  (exists_ofList_eq_ok_iff _).mp ⟨set, h.ofList_toList⟩

theorem Indexed.toList_offer {set : InstructionSet} (h : set.Indexed) (d : Definition) :
    (set.offer d).toList =
      if set.toList.any (sameName d) = true then set.toList else set.toList ++ [d] := by
  have herror := h.add_eq_error_iff d
  simp only [not_namesDiffer_iff, ← List.any_eq_true] at herror
  cases hadd : set.add d with
  | ok result =>
    have hfree : ¬ set.toList.any (sameName d) = true := by
      intro htaken
      have hrefused := (herror ⟨d.name⟩).mpr ⟨htaken, rfl⟩
      rw [hadd] at hrefused
      cases hrefused
    rw [offer_of_add_eq_ok hadd, toList_of_add_eq_ok hadd, if_neg hfree]
  | error taken =>
    rw [offer_of_add_eq_error hadd, if_pos ((herror taken).mp hadd).1]

theorem toList_offerAll_empty (definitions : List Definition) :
    (InstructionSet.empty.offerAll definitions).toList = definitions.eraseDupsBy sameName := by
  have hoffer (set : InstructionSet) (d : Definition) (h : set.Made) : (set.offer d).toList =
      if true = true ∧ set.toList.any (sameName d) = false then set.toList ++ [d]
      else set.toList := by
    rw [h.indexed.toList_offer]
    cases set.toList.any (sameName d) <;> rfl
  have hlist := toList_foldl_offer InstructionSet.offer toList Made (fun _ => true) sameName
    (fun _ d h => h.offer d) hoffer definitions .empty rfl
  rwa [List.filter_eq_self.mpr fun _ _ => rfl] at hlist

theorem Made.toList_offerAll {set : InstructionSet} (h : set.Made)
    (definitions : List Definition) :
    (set.offerAll definitions).toList = (set.toList ++ definitions).eraseDupsBy sameName := by
  have hstart : InstructionSet.empty.offerAll (set.toList ++ definitions) =
      set.offerAll definitions := by
    rw [InstructionSet.offerAll, List.foldl_append]
    exact congrArg (·.offerAll definitions) h.eq_offerAll
  rw [← hstart, toList_offerAll_empty]

/-! ## Consistency -/

/-- The index and the definitions of a set say the same. -/
structure Consistent (set : InstructionSet) : Prop where
  /-- The index holds the folded names and the positions of the definitions, and nothing else. -/
  getElem?_index_iff (key : String) (position : Nat) : set.index[key]? = some position ↔
    ∃ d, set.toList[position]? = some d ∧ Text.foldCase d.name = key
  position_lt (key : String) (position : Nat) : set.index[key]? = some position →
    position < set.size
  pairwise : set.toList.Pairwise NamesDiffer
  /-- A name leads to the only definition that is spelled like it. -/
  find?_iff (name : String) (d : Definition) : set.find? name = some d ↔
    d ∈ set.toList ∧ Text.foldCase d.name = Text.foldCase name ∧
      ∀ e ∈ set.toList, Text.foldCase e.name = Text.foldCase name → e = d
  find?_eq_scan (name : String) : set.find? name =
    set.toList.find? fun d => Text.foldCase d.name == Text.foldCase name
  add_eq_error_iff_find? (d : Definition) (taken : NameTaken) : set.add d = .error taken ↔
    (set.find? d.name).isSome = true ∧ taken = ⟨d.name⟩
  /-- A refused definition leaves no trace. -/
  offer_eq (d : Definition) : (set.find? d.name).isSome = true → set.offer d = set

namespace Made
variable {set : InstructionSet}

theorem position_lt (h : set.Made) {key : String} {position : Nat}
    (hindex : set.index[key]? = some position) : position < set.size := by
  obtain ⟨d, hd, -⟩ := (h.indexed.getElem?_index key position).mp hindex
  exact (List.getElem?_eq_some_iff.mp hd).1

theorem eq_of_foldCase (h : set.Made) {d e : Definition} (hd : d ∈ set.toList)
    (he : e ∈ set.toList) (hname : Text.foldCase e.name = Text.foldCase d.name) : e = d := by
  have hfindd := (h.indexed.find?_eq_some_iff d.name d).mpr ⟨hd, rfl⟩
  have hfinde := (h.indexed.find?_eq_some_iff d.name e).mpr ⟨he, hname⟩
  exact Option.some.inj (hfinde.symm.trans hfindd)

theorem find?_eq_scan (h : set.Made) (name : String) : set.find? name =
    set.toList.find? fun d => Text.foldCase d.name == Text.foldCase name := by
  have hpair : set.toList.Pairwise fun a b =>
      ¬ ((Text.foldCase a.name == Text.foldCase name) = true ∧
        (Text.foldCase b.name == Text.foldCase name) = true) := by
    apply h.pairwise.imp
    intro a b hdiffer hboth
    exact hdiffer ((beq_iff_eq.mp hboth.1).trans (beq_iff_eq.mp hboth.2).symm)
  apply Option.ext
  intro d
  rw [h.indexed.find?_eq_some_iff]
  constructor
  · intro hd
    exact find?_eq_some_of_pairwise hpair hd.1 (beq_iff_eq.mpr hd.2)
  · intro hscan
    have hname := List.find?_some hscan
    exact ⟨List.mem_of_find?_eq_some hscan, beq_iff_eq.mp hname⟩

theorem add_eq_error_iff_find? (h : set.Made) (d : Definition) (taken : NameTaken) :
    set.add d = .error taken ↔ (set.find? d.name).isSome = true ∧ taken = ⟨d.name⟩ := by
  rw [h.indexed.add_eq_error_iff, Option.isSome_iff_exists]
  simp only [h.indexed.find?_eq_some_iff, NamesDiffer, Decidable.not_not]

theorem consistent (h : set.Made) : set.Consistent where
  getElem?_index_iff := h.indexed.getElem?_index
  position_lt _ _ := h.position_lt
  pairwise := h.pairwise
  find?_iff name d := by
    rw [h.indexed.find?_eq_some_iff]
    constructor
    · rintro ⟨hmem, hname⟩
      exact ⟨hmem, hname, fun e he hother => h.eq_of_foldCase hmem he (hother.trans hname.symm)⟩
    · rintro ⟨hmem, hname, -⟩
      exact ⟨hmem, hname⟩
  find?_eq_scan := h.find?_eq_scan
  add_eq_error_iff_find? := h.add_eq_error_iff_find?
  offer_eq d hfound := offer_of_add_eq_error ((h.add_eq_error_iff_find? d _).mpr ⟨hfound, rfl⟩)

end Made

/-- Whatever definitions are offered to a set, its index and its definitions agree. The definitions
stand in the order in which they came, each name with its first spelling only. -/
theorem consistent_offerAll {start : InstructionSet} (h : start.Made)
    (definitions : List Definition) :
    (start.offerAll definitions).Consistent ∧
      (start.offerAll definitions).toList =
        (start.toList ++ definitions).eraseDupsBy sameName :=
  ⟨(h.offerAll definitions).consistent, h.toList_offerAll definitions⟩

/-- Of four definitions that are offered to the built-in set, two are refused. -/
theorem consistent_offerAll_standard :
    ∃ set, standard.offerAll [⟨"ADD", .register, 1, 2⟩, ⟨"Mul", .register, 0, 24⟩,
        ⟨"mUL", .jump, 0, 24⟩, ⟨"lui", .immediate, 15, 0⟩] = set ∧ set.Consistent ∧
      set.toList = standardDefinitions ++
        [⟨"Mul", .register, 0, 24⟩, ⟨"lui", .immediate, 15, 0⟩] := by
  obtain ⟨hconsistent, hlist⟩ := consistent_offerAll .standard
    [⟨"ADD", .register, 1, 2⟩, ⟨"Mul", .register, 0, 24⟩, ⟨"mUL", .jump, 0, 24⟩,
      ⟨"lui", .immediate, 15, 0⟩]
  refine ⟨_, rfl, hconsistent, hlist.trans ?_⟩
  decide +kernel

end Mips.InstructionSet
