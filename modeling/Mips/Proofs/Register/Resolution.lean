import Mips.Proofs.Register.Names
import Mips.Register.File

/-! # What names a register

* `Register.Denotes name index`: a text is the name with a number, or a dollar sign and a decimal
  numeral of it. This is what `Register.Spells` says of the register with the number
  (`Register.denotes_toNat_iff`).
* `Register.resolve_iff_denotes`: such a text is resolved to the register, any other is refused, and
  names and numerals are not confused. -/

namespace Mips
set_option autoImplicit false

namespace Register

/-! ## Texts and numbers -/

/-- A text is the name with this number in the table, or a dollar sign and at least one of the
characters `0` to `9`, with this value. -/
def Denotes (name : String) (index : Nat) : Prop :=
  names[index]? = some name ∨
    index ≤ 31 ∧ ∃ digits, name.toList = '$' :: digits ∧ digits ≠ [] ∧
      (∀ c ∈ digits, c.isDigit = true) ∧ Nat.ofDigitChars 10 digits 0 = index

theorem getElem?_names (r : Register) : names[r.toNat]? = some r.name :=
  Vector.getElem?_eq_getElem r.isLt

theorem nameAt?_toNat (r : Register) : nameAt? r.toNat = some r.name := by
  rw [nameAt?, (ofIndex?_eq_some_iff r.toNat r).mpr rfl, Option.map_some]

theorem denotes_toNat_iff (name : String) (r : Register) :
    Denotes name r.toNat ↔ Spells name r := by
  have hr := r.isLt
  rw [Denotes, Spells, getElem?_names, Option.some.injEq, eq_comm]
  simp only [Text.isDigits_ten_iff]
  have hle : r.toNat ≤ 31 := by omega
  simp only [hle, true_and]

theorem Denotes.exists_register {name : String} {index : Nat} (h : Denotes name index) :
    ∃ r : Register, r.toNat = index ∧ Spells name r := by
  have hlt : index < 32 := by
    rcases h with h | h
    · exact (Vector.getElem?_eq_some_iff.mp h).1
    · omega
  refine ⟨BitVec.ofNat 5 index, ?_, ?_⟩
  · rw [BitVec.toNat_ofNat]
    omega
  · rw [← denotes_toNat_iff, BitVec.toNat_ofNat, Nat.mod_eq_of_lt (by omega)]
    exact h

/-! ## Resolution -/

theorem resolve_eq_ok_iff (name : String) (r : Register) :
    resolve name = .ok r ↔ Spells name r := by
  rw [← ofName?_eq_some_iff, resolve]
  cases ofName? name with
  | none => simp
  | some s => simp

theorem resolve_eq_error_iff (name : String) (fault : RegisterFault) :
    resolve name = .error fault ↔ (∀ r, ¬ Spells name r) ∧ fault = .unknownName name := by
  simp only [← ofName?_eq_some_iff]
  rw [resolve]
  cases ofName? name with
  | none => simp [eq_comm]
  | some s => simp

theorem Spells.unique {name : String} {r s : Register} (hr : Spells name r) (hs : Spells name s) :
    r = s := by
  rw [← resolve_eq_ok_iff] at hr hs
  exact Except.ok.inj (hr.symm.trans hs)

theorem Denotes.unique {name : String} {i j : Nat} (hi : Denotes name i) (hj : Denotes name j) :
    i = j := by
  obtain ⟨r, rfl, hr⟩ := hi.exists_register
  obtain ⟨s, rfl, hs⟩ := hj.exists_register
  rw [hr.unique hs]

theorem exists_denotes_iff (name : String) :
    (∃ index, Denotes name index) ↔ ∃ r, Spells name r := by
  constructor
  · rintro ⟨index, hindex⟩
    obtain ⟨r, -, hspells⟩ := hindex.exists_register
    exact ⟨r, hspells⟩
  · rintro ⟨r, hspells⟩
    exact ⟨r.toNat, (denotes_toNat_iff name r).mpr hspells⟩

theorem nameAt?_eq_some_iff (name : String) (index : Nat) :
    nameAt? index = some name ↔ name ∈ names ∧ ∃ r, resolve name = .ok r ∧ r.toNat = index := by
  constructor
  · intro hname
    obtain ⟨r, hr, rfl⟩ := Option.map_eq_some_iff.mp hname
    refine ⟨Vector.mem_of_getElem? (getElem?_names r), r, ?_, ?_⟩
    · exact (resolve_eq_ok_iff _ r).mpr (.inl rfl)
    · exact ((ofIndex?_eq_some_iff index r).mp hr).symm
  · rintro ⟨hmem, r, hresolve, rfl⟩
    -- The name has a place in the table, and it denotes no other number than this.
    obtain ⟨place, hplace⟩ := Vector.getElem?_of_mem hmem
    have hdenotes : Denotes name r.toNat :=
      (denotes_toNat_iff name r).mpr ((resolve_eq_ok_iff name r).mp hresolve)
    rw [← Denotes.unique hdenotes (.inl hplace), getElem?_names] at hplace
    rw [nameAt?_toNat, hplace]

/-- The special registers have no number. -/
theorem not_spells_special (special : SpecialRegister) (r : Register) :
    ¬ Spells special.name r := by
  rw [← ofName?_eq_some_iff, ofName?_special]
  intro h
  cases h

/-! ## Characters -/

/-- The characters that a register is written with. -/
def isNameChar (c : Char) : Bool :=
  c == '$' || c.isLower || c.isDigit

theorem all_isNameChar_name : ∀ r : Register, r.name.toList.all isNameChar = true := by
  decide

theorem Spells.isNameChar {name : String} {r : Register} (h : Spells name r) {c : Char}
    (hc : c ∈ name.toList) : isNameChar c = true := by
  rcases h with rfl | ⟨digits, hname, hdigits⟩
  · exact List.all_eq_true.mp (all_isNameChar_name r) c hc
  · rw [hname] at hc
    rcases List.mem_cons.mp hc with rfl | hmem
    · rfl
    · rw [Register.isNameChar, ((Text.isDigits_ten_iff _ _).mp hdigits).2.1 c hmem, Bool.or_true]

/-- A text is resolved to the register that it denotes by name or by number, and refused with a fault
that names it if it denotes none. No text denotes two numbers, so that names and their numbers
determine each other. A special register is refused, and so is a text with a sign, a capital letter
or any other character that no name and no decimal number has. -/
theorem resolve_iff_denotes (name : String) :
    (∀ r, resolve name = .ok r ↔ Denotes name r.toNat) ∧
    (∀ fault, resolve name = .error fault ↔
      (∀ index, ¬ Denotes name index) ∧ fault = .unknownName name) ∧
    (∀ i j, Denotes name i → Denotes name j → i = j) ∧
    (∀ index, nameAt? index = some name ↔
      name ∈ names ∧ ∃ r, resolve name = .ok r ∧ r.toNat = index) ∧
    (∀ special : SpecialRegister, name = special.name →
      resolve name = .error (.unknownName name)) ∧
    ∀ c ∈ name.toList, isNameChar c = false → resolve name = .error (.unknownName name) := by
  have hrefused (h : ∀ r, ¬ Spells name r) : resolve name = .error (.unknownName name) :=
    (resolve_eq_error_iff name _).mpr ⟨h, rfl⟩
  refine ⟨?_, ?_, ?_, ?_, ?_, ?_⟩
  · intro r
    rw [resolve_eq_ok_iff, denotes_toNat_iff]
  · intro fault
    rw [resolve_eq_error_iff, ← not_exists, ← not_exists, exists_denotes_iff]
  · intro i j hi hj
    exact hi.unique hj
  · exact nameAt?_eq_some_iff name
  · rintro special rfl
    exact hrefused (not_spells_special special)
  · intro c hc hchar
    apply hrefused
    intro r hspells
    rw [hspells.isNameChar hc] at hchar
    cases hchar

/-- A number with zeros before it, a name in capital letters, and a number with a sign. -/
theorem resolve_iff_denotes_spellings :
    resolve "$0031" = .ok 31 ∧ nameAt? 31 = some "$ra" ∧ resolve "$ra" = .ok 31 ∧
      resolve "$RA" = .error (.unknownName "$RA") ∧ resolve "$+1" = .error (.unknownName "$+1") ∧
      resolve "$lo" = .error (.unknownName "$lo") ∧ ¬ Denotes "$0031" 0 := by
  obtain ⟨hnumber, -, hunique, -⟩ := resolve_iff_denotes "$0031"
  obtain ⟨-, -, -, hname, -⟩ := resolve_iff_denotes "$ra"
  obtain ⟨-, -, -, -, -, hcapital⟩ := resolve_iff_denotes "$RA"
  obtain ⟨-, -, -, -, -, hsign⟩ := resolve_iff_denotes "$+1"
  obtain ⟨-, -, -, -, hspecial, -⟩ := resolve_iff_denotes "$lo"
  have hdenotes : Denotes "$0031" 31 :=
    .inr ⟨by omega, ['0', '0', '3', '1'], rfl, by simp, by simp, rfl⟩
  have hra : nameAt? 31 = some "$ra" := rfl
  obtain ⟨-, r, hresolve, hr⟩ := (hname 31).mp hra
  rw [BitVec.eq_of_toNat_eq (x := r) (y := 31) hr] at hresolve
  refine ⟨(hnumber 31).mpr hdenotes, hra, hresolve, hcapital 'R' (by decide) rfl,
    hsign '+' (by decide) rfl, hspecial .lo rfl, ?_⟩
  intro hzero
  exact absurd (hunique 31 0 hdenotes hzero) (by omega)

end Register

end Mips
