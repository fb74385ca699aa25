import Mips.Proofs.Text.NumeralGrammar
import Mips.Register.Name

/-! # The ways to write a register

* `Register.Spells name r`: a general register is written by its name, or by a dollar sign and a
  decimal numeral of its number. `Register.ofName?_eq_some_iff`: these are read as the register, and
  nothing else is.
* `SpecialRegister.ofName?_eq_some_iff`: a special register has its name only, and no general
  register is written like it (`Register.ofName?_special`). -/

namespace Mips
set_option autoImplicit false

namespace Register

/-- A text stands for a register: it is its name, or a dollar sign and its number in decimal, with
any number of leading zeros. -/
def Spells (name : String) (r : Register) : Prop :=
  name = r.name ∨ ∃ digits, name.toList = '$' :: digits ∧ Text.IsDigits 10 digits r.toNat

/-! ## Numbers -/

theorem ofIndex?_eq_some_iff (index : Nat) (r : Register) :
    ofIndex? index = some r ↔ index = r.toNat := by
  have hr := r.isLt
  unfold ofIndex?
  by_cases hindex : index < 32
  · rw [if_pos hindex, Option.some.injEq, ← BitVec.toNat_inj, BitVec.toNat_ofNat]
    omega
  · rw [if_neg hindex]
    simp only [reduceCtorEq, false_iff]
    omega

theorem ofNumber?_eq_some_iff (name : String) (r : Register) :
    ofNumber? name = some r ↔
      ∃ digits, name.toList = '$' :: digits ∧ Text.IsDigits 10 digits r.toNat := by
  have hr := r.isLt
  unfold ofNumber?
  split
  · next digits hname =>
    have hnumber : (Text.digits 10 32 digits).toOption.bind ofIndex? = some r ↔
        Text.digits 10 32 digits = .ok r.toNat := by
      cases Text.digits 10 32 digits with
      | error fault => simp [Except.toOption]
      | ok index => simp [Except.toOption, ofIndex?_eq_some_iff]
    rw [hnumber, Text.digits_eq_ok_iff 10 32 (by omega) (by omega), hname]
    constructor
    · intro h
      exact ⟨digits, rfl, h.1⟩
    · rintro ⟨_, hdigits, h⟩
      cases hdigits
      exact ⟨h, hr⟩
  · next hname =>
    simp only [reduceCtorEq, false_iff]
    rintro ⟨digits, hdigits, -⟩
    exact hname digits hdigits

/-! ## Names -/

theorem ofName?_name : ∀ r : Register, ofName? r.name = some r := by
  decide

theorem ofNumber?_name : ∀ r : Register, ofNumber? r.name = none := by
  decide

theorem mem_all : ∀ r : Register, r ∈ all := by
  decide

theorem name_injective {r s : Register} (h : r.name = s.name) : r = s := by
  have hname := ofName?_name r
  rw [h, ofName?_name] at hname
  exact (Option.some.inj hname).symm

theorem ofName?_eq_some_iff (name : String) (r : Register) :
    ofName? name = some r ↔ Spells name r := by
  rw [ofName?, Spells, ← ofNumber?_eq_some_iff]
  cases hfind : all.find? fun r => r.name == name with
  | some s =>
    have hbeq := List.find?_some hfind
    have hname : s.name = name := beq_iff_eq.mp hbeq
    -- A name is no number, so the number is not looked at.
    rw [← hname, ofNumber?_name]
    simp only [Option.orElse_eq_orElse, Option.orElse_eq_or, Option.some_or, Option.some.injEq,
      reduceCtorEq, or_false]
    exact ⟨congrArg Register.name, name_injective⟩
  | none =>
    have hnone : name ≠ r.name := by
      rintro rfl
      exact List.find?_eq_none.mp hfind r (mem_all r) (beq_self_eq_true _)
    simp [hnone]

instance (name : String) (r : Register) : Decidable (Spells name r) :=
  decidable_of_iff _ (ofName?_eq_some_iff name r)

end Register

/-! ## Special registers -/

theorem SpecialRegister.ofName?_eq_some_iff (name : String) (special : SpecialRegister) :
    ofName? name = some special ↔ name = special.name := by
  constructor
  · intro h
    unfold ofName? at h
    split at h <;> cases h <;> rfl
  · rintro rfl
    cases special <;> rfl

theorem Register.ofName?_special (special : SpecialRegister) :
    Register.ofName? special.name = none := by
  cases special <;> decide

end Mips
