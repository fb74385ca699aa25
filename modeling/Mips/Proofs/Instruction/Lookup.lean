import Mips.Instruction.Standard
import Mips.Proofs.Operation.Reading

/-! # Looking up definitions

* `Indexed`: the index of a set holds the position of each definition under its folded name. Every
  set that was made by adding definitions is indexed (`indexed_of_ofList`), and in such a set a name
  leads to the one definition spelled like it up to letter case (`find?_eq_some_iff`).
* `exists_ofList_eq_ok_iff`: a list of definitions makes a set exactly if their names differ. The
  definition that is refused is the first one with a name before it (`Indexed.add_eq_error_iff`).
* `findCodes?_eq_some`: a pair of codes leads to a definition that has them, if no two definitions
  share a pair. -/

namespace Mips.InstructionSet
set_option autoImplicit false

/-! ## By name -/

structure Indexed (set : InstructionSet) : Prop where
  getElem?_index : ∀ (key : String) (position : Nat), set.index[key]? = some position ↔
    ∃ d, set.toList[position]? = some d ∧ Text.foldCase d.name = key

theorem indexed_empty : empty.Indexed := by
  refine ⟨?_⟩
  intro key position
  simp [empty, toList]

theorem getElem?_concat_eq_some_iff (definitions : List Definition) (d e : Definition)
    (position : Nat) :
    (definitions ++ [d])[position]? = some e ↔
      definitions[position]? = some e ∨ (position = definitions.length ∧ d = e) := by
  rcases Nat.lt_trichotomy position definitions.length with hlt | heq | hgt
  · rw [List.getElem?_append_left hlt]
    simp [Nat.ne_of_lt hlt]
  · simp [heq]
  · rw [List.getElem?_eq_none (by simp; omega), List.getElem?_eq_none (by omega)]
    simp [Nat.ne_of_gt hgt]

theorem Indexed.add {set result : InstructionSet} {d : Definition} (h : set.Indexed)
    (hadd : set.add d = .ok result) : result.Indexed := by
  have hlist := toList_of_add_eq_ok hadd
  unfold InstructionSet.add at hadd
  split at hadd
  · exact absurd hadd (by simp)
  · rename_i hfree
    have hresult := Except.ok.inj hadd
    refine ⟨?_⟩
    intro key position
    have hposition : (∃ e, result.toList[position]? = some e ∧ Text.foldCase e.name = key) ↔
        set.index[key]? = some position ∨
          (position = set.size ∧ Text.foldCase d.name = key) := by
      rw [h.getElem?_index, hlist]
      simp only [getElem?_concat_eq_some_iff, or_and_right, exists_or, and_assoc,
        exists_and_left, exists_eq_left']
      rfl
    rw [hposition, ← hresult, Std.TreeMap.getElem?_insert]
    by_cases hkey : Text.foldCase d.name = key
    · have hnone : set.index[key]? = none := by
        rw [← hkey]
        exact Std.TreeMap.getElem?_eq_none hfree
      simp [hkey, hnone, eq_comm]
    · simp [hkey]

/-- What one addition keeps, a list of additions keeps. -/
theorem Indexed.foldlM_add {definitions : List Definition} {start set : InstructionSet}
    (h : start.Indexed) (hfold : definitions.foldlM InstructionSet.add start = .ok set) :
    set.Indexed ∧ set.toList = start.toList ++ definitions := by
  induction definitions generalizing start with
  | nil =>
    have hset := Except.ok.inj hfold
    rw [← hset, List.append_nil]
    exact ⟨h, rfl⟩
  | cons d definitions ih =>
    rw [List.foldlM_cons, bind_eq_ok_iff] at hfold
    obtain ⟨next, hadd, hrest⟩ := hfold
    obtain ⟨hindexed, hlist⟩ := ih (h.add hadd) hrest
    refine ⟨hindexed, ?_⟩
    rw [hlist, toList_of_add_eq_ok hadd, List.append_assoc]
    rfl

theorem indexed_of_ofList {definitions : List Definition} {set : InstructionSet}
    (h : ofList definitions = .ok set) : set.Indexed ∧ set.toList = definitions :=
  indexed_empty.foldlM_add h

theorem ofList_toList {definitions : List Definition} {set : InstructionSet}
    (h : ofList definitions = .ok set) : ofList set.toList = .ok set := by
  rw [(indexed_of_ofList h).2]
  exact h

/-- Two definitions can stand in one set if their names differ by more than letter case. -/
def NamesDiffer (a b : Definition) : Prop :=
  Text.foldCase a.name ≠ Text.foldCase b.name

theorem Indexed.mem_index_iff {set : InstructionSet} (h : set.Indexed) (key : String) :
    key ∈ set.index ↔ ∃ d ∈ set.toList, Text.foldCase d.name = key := by
  rw [Std.TreeMap.mem_iff_isSome_getElem?, Option.isSome_iff_exists]
  simp only [h.getElem?_index, List.mem_iff_getElem?]
  constructor
  · intro hkey
    obtain ⟨position, d, hd, hname⟩ := hkey
    exact ⟨d, ⟨position, hd⟩, hname⟩
  · intro hkey
    obtain ⟨d, ⟨position, hd⟩, hname⟩ := hkey
    exact ⟨position, d, hd, hname⟩

theorem Indexed.add_eq_error_iff {set : InstructionSet} (h : set.Indexed) (d : Definition)
    (taken : NameTaken) :
    set.add d = .error taken ↔
      (∃ e ∈ set.toList, ¬ NamesDiffer e d) ∧ taken = ⟨d.name⟩ := by
  have hmem : (∃ e ∈ set.toList, ¬ NamesDiffer e d) ↔ Text.foldCase d.name ∈ set.index := by
    simp only [h.mem_index_iff, NamesDiffer, Decidable.not_not]
  rw [hmem, InstructionSet.add]
  split
  · next htaken => simp [htaken, eq_comm]
  · next hfree => simp [hfree]

theorem Indexed.exists_add_eq_ok_iff {set : InstructionSet} (h : set.Indexed) (d : Definition) :
    (∃ result, set.add d = .ok result) ↔ ∀ e ∈ set.toList, NamesDiffer e d := by
  have herror := h.add_eq_error_iff d ⟨d.name⟩
  cases hadd : set.add d with
  | error taken =>
    obtain ⟨⟨e, he, hsame⟩, -⟩ := (h.add_eq_error_iff d taken).mp hadd
    simp only [reduceCtorEq, exists_false, false_iff]
    intro hall
    exact hsame (hall e he)
  | ok result =>
    simp only [hadd, reduceCtorEq, and_true, false_iff] at herror
    simp only [Except.ok.injEq, exists_eq', true_iff]
    intro e he hsame
    exact herror ⟨e, he, fun hdiffer => hdiffer hsame⟩

theorem Indexed.exists_foldlM_add_iff {start : InstructionSet} (h : start.Indexed)
    (definitions : List Definition) :
    (∃ set, definitions.foldlM InstructionSet.add start = .ok set) ↔
      definitions.Pairwise NamesDiffer ∧
        ∀ e ∈ start.toList, ∀ d ∈ definitions, NamesDiffer e d := by
  induction definitions generalizing start with
  | nil => simp [pure, Except.pure]
  | cons d definitions ih =>
    simp only [List.foldlM_cons, bind_eq_ok_iff, List.pairwise_cons, List.forall_mem_cons]
    constructor
    · intro hfold
      obtain ⟨set, next, hadd, hrest⟩ := hfold
      obtain ⟨hpair, hnext⟩ := (ih (h.add hadd)).mp ⟨set, hrest⟩
      have hd := (h.exists_add_eq_ok_iff d).mp ⟨next, hadd⟩
      simp only [toList_of_add_eq_ok hadd, List.mem_append, List.mem_singleton] at hnext
      refine ⟨⟨?_, hpair⟩, ?_⟩
      · exact hnext d (.inr rfl)
      · intro e he
        exact ⟨hd e he, hnext e (.inl he)⟩
    · intro hnames
      obtain ⟨⟨hd, hpair⟩, hstart⟩ := hnames
      obtain ⟨next, hadd⟩ := (h.exists_add_eq_ok_iff d).mpr fun e he => (hstart e he).1
      have hnext : ∀ e ∈ next.toList, ∀ d ∈ definitions, NamesDiffer e d := by
        simp only [toList_of_add_eq_ok hadd, List.mem_append, List.mem_singleton]
        rintro e (he | rfl)
        · exact (hstart e he).2
        · exact hd
      obtain ⟨set, hset⟩ := (ih (h.add hadd)).mpr ⟨hpair, hnext⟩
      exact ⟨set, next, hadd, hset⟩

theorem exists_ofList_eq_ok_iff (definitions : List Definition) :
    (∃ set, ofList definitions = .ok set) ↔ definitions.Pairwise NamesDiffer := by
  have hempty : ∀ e ∈ empty.toList, ∀ d ∈ definitions, NamesDiffer e d := by
    intro e he
    cases he
  exact (indexed_empty.exists_foldlM_add_iff definitions).trans (and_iff_left hempty)

theorem Indexed.find?_eq_some_iff {set : InstructionSet} (h : set.Indexed) (name : String)
    (d : Definition) :
    set.find? name = some d ↔
      d ∈ set.toList ∧ Text.foldCase d.name = Text.foldCase name := by
  rw [find?, Option.bind_eq_some_iff]
  constructor
  · intro hfind
    obtain ⟨position, hindex, hd⟩ := hfind
    obtain ⟨e, he, hname⟩ := (h.getElem?_index _ _).mp hindex
    rw [← Array.getElem?_toList] at hd
    have hde : d = e := Option.some.inj (hd.symm.trans he)
    rw [hde]
    exact ⟨List.mem_of_getElem? he, hname⟩
  · intro hd
    obtain ⟨hmem, hname⟩ := hd
    obtain ⟨position, hposition⟩ := List.getElem?_of_mem hmem
    refine ⟨position, (h.getElem?_index _ _).mpr ⟨d, hposition, hname⟩, ?_⟩
    rw [← Array.getElem?_toList]
    exact hposition

/-! ## By codes -/

theorem find?_eq_some_of_pairwise {p : Definition → Bool} {definitions : List Definition}
    (hpair : definitions.Pairwise fun a b => ¬ (p a = true ∧ p b = true)) {d : Definition}
    (hmem : d ∈ definitions) (hd : p d = true) : definitions.find? p = some d := by
  induction definitions with
  | nil => cases hmem
  | cons e rest ih =>
    obtain ⟨hhead, htail⟩ := List.pairwise_cons.mp hpair
    rcases List.mem_cons.mp hmem with hde | hrest
    · rw [← hde, List.find?_cons_of_pos hd]
    · have he : ¬ p e = true := fun he => hhead d hrest ⟨he, hd⟩
      rw [List.find?_cons_of_neg he]
      exact ih htail hrest

/-- Two definitions can share an opcode only if both are told apart by their function codes. -/
def CodesDiffer (a b : Definition) : Prop :=
  a.opcode = b.opcode → a.format = .register ∧ b.format = .register ∧ a.funct ≠ b.funct

theorem CodesDiffer.not_both {a b : Definition} (h : CodesDiffer a b) (opcode funct : Byte) :
    ¬ (a.hasCodes opcode funct = true ∧ b.hasCodes opcode funct = true) := by
  intro hboth
  obtain ⟨ha, hb⟩ := hboth
  have hopcode (d : Definition) (hd : d.hasCodes opcode funct = true) : d.opcode = opcode := by
    unfold Definition.hasCodes at hd
    split at hd <;> simp_all
  obtain ⟨hfa, hfb, hfunct⟩ := h ((hopcode a ha).trans (hopcode b hb).symm)
  simp only [Definition.hasCodes, hfa, hfb, Bool.and_eq_true, beq_iff_eq] at ha hb
  exact hfunct (ha.2.trans hb.2.symm)

theorem findCodes?_eq_some {set : InstructionSet} (hcodes : set.toList.Pairwise CodesDiffer)
    {d : Definition} (hmem : d ∈ set.toList) {opcode funct : Byte}
    (hd : d.hasCodes opcode funct = true) : set.findCodes? opcode funct = some d := by
  rw [findCodes?, ← Array.find?_toList]
  apply find?_eq_some_of_pairwise _ hmem hd
  apply hcodes.imp
  intro a b hab
  exact hab.not_both opcode funct

end Mips.InstructionSet
