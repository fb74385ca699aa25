import Mathlib.Data.Nat.Digits.Defs
import Mips.Text.Case
import Mips.Text.Numeral

/-! # The grammar of numerals

* `IsDigit radix c value`, `IsDigits radix cs value`: a digit in either letter case, and the number
  that a row of digits stands for.
* `IsNumeral s value`: the numerals of 32-bit words.
* `digits_eq_ok_iff`, `natural_eq_ok_iff`, `unsigned32_eq_ok_iff`: what is read is what these
  describe, and nothing else is read.
* `isDigits_ten_iff`: in decimal, digits are the characters `0` to `9`. -/

namespace Mips.Text
set_option autoImplicit false

/-! ## The rules -/

def IsDigit (radix : Nat) (c : Char) (value : Nat) : Prop :=
  value < radix ∧ c.toLower = Nat.digitChar value

/-- One digit or more, the highest first. -/
def IsDigits (radix : Nat) (cs : List Char) (n : Nat) : Prop :=
  ∃ values, values ≠ [] ∧ List.Forall₂ (IsDigit radix) cs values ∧
    Nat.ofDigits radix values.reverse = n

/-- Digits, with a plus sign before them or none. -/
def IsSigned (radix : Nat) (cs : List Char) (n : Nat) : Prop :=
  IsDigits radix cs n ∨ ∃ rest, cs = '+' :: rest ∧ IsDigits radix rest n

/-- A number of 32 bits, in decimal or, after a mark, in hexadecimal. The sign follows the mark. -/
def IsNumeral (s : String) (n : Nat) : Prop :=
  n < 2 ^ 32 ∧ (IsSigned 10 s.toList n ∨
    ∃ rest, (s.toList = '0' :: 'x' :: rest ∨ s.toList = '0' :: 'X' :: rest) ∧ IsSigned 16 rest n)

/-! ## Digits -/

theorem toNat_digitChar :
    ∀ value < 16, (Nat.digitChar value).toNat = if value < 10 then 48 + value else 87 + value := by
  decide

theorem digitValue?_eq (c : Char) :
    digitValue? c =
      if 48 ≤ c.toNat ∧ c.toNat ≤ 57 then some (c.toNat - 48)
      else if 97 ≤ c.toNat ∧ c.toNat ≤ 122 then some (c.toNat - 97 + 10)
      else if 65 ≤ c.toNat ∧ c.toNat ≤ 90 then some (c.toNat - 65 + 10)
      else none := by
  unfold digitValue?
  simp only [Char.le_def, UInt32.le_iff_toNat_le]
  rfl

theorem digit?_eq_some_iff (radix : Nat) (hradix : radix ≤ 16) (c : Char) (value : Nat) :
    digit? radix c = some value ↔ IsDigit radix c value := by
  rw [digit?, Option.filter_eq_some_iff, decide_eq_true_eq, and_comm, IsDigit]
  refine and_congr_right ?_
  intro hvalue
  have hchar := toNat_digitChar value (by omega)
  rw [digitValue?_eq, ← Char.toNat_inj, toNat_toLower, hchar]
  by_cases hdecimal : 48 ≤ c.toNat ∧ c.toNat ≤ 57
  · rw [if_pos hdecimal, if_neg (by omega), Option.some.injEq]
    split <;> omega
  · by_cases hsmall : 97 ≤ c.toNat ∧ c.toNat ≤ 122
    · rw [if_neg hdecimal, if_pos hsmall, if_neg (by omega), Option.some.injEq]
      split <;> omega
    · by_cases hcapital : 65 ≤ c.toNat ∧ c.toNat ≤ 90
      · rw [if_neg hdecimal, if_neg hsmall, if_pos hcapital, if_pos hcapital, Option.some.injEq]
        split <;> omega
      · rw [if_neg hdecimal, if_neg hsmall, if_neg hcapital, if_neg hcapital]
        simp only [reduceCtorEq, false_iff]
        split <;> omega

/-! ## Rows of digits -/

theorem le_foldl_digits (radix : Nat) (hradix : 0 < radix) (value : Nat) (values : List Nat) :
    value ≤ values.foldl (fun v d => v * radix + d) value := by
  induction values generalizing value with
  | nil => exact Nat.le_refl value
  | cons d values ih =>
    have hstep : value ≤ value * radix + d :=
      Nat.le_trans (Nat.le_mul_of_pos_right value hradix) (Nat.le_add_right ..)
    exact Nat.le_trans hstep (ih (value * radix + d))

/-- The bound is tested at each digit, but values only grow. -/
theorem appendDigits_eq_ok_iff (radix bound : Nat) (hradix : 0 < radix) (value : Nat)
    (cs : List Char) (n : Nat) :
    appendDigits radix bound value cs = .ok n ↔
      ∃ values, List.Forall₂ (fun c d => digit? radix c = some d) cs values ∧
        values.foldl (fun v d => v * radix + d) value = n ∧ (cs = [] ∨ n < bound) := by
  induction cs generalizing value with
  | nil =>
    constructor
    · intro h
      exact ⟨[], .nil, Except.ok.inj h, .inl rfl⟩
    · intro h
      obtain ⟨values, hvalues, hn, -⟩ := h
      cases hvalues
      exact congrArg Except.ok hn
  | cons c cs ih =>
    have hcons : (∃ values, List.Forall₂ (fun c d => digit? radix c = some d) (c :: cs) values ∧
        values.foldl (fun v d => v * radix + d) value = n ∧ (c :: cs = [] ∨ n < bound)) ↔
        ∃ d, digit? radix c = some d ∧ n < bound ∧
          ∃ values, List.Forall₂ (fun c d => digit? radix c = some d) cs values ∧
            values.foldl (fun v d => v * radix + d) (value * radix + d) = n := by
      constructor
      · intro h
        obtain ⟨_, hvalues, hn, hbound⟩ := h
        cases hvalues with
        | cons hd hrest => exact ⟨_, hd, by simpa using hbound, _, hrest, hn⟩
      · intro h
        obtain ⟨d, hd, hbound, values, hrest, hn⟩ := h
        exact ⟨d :: values, .cons hd hrest, hn, .inr hbound⟩
    rw [hcons, appendDigits]
    cases hdigit : digit? radix c with
    | none => simp
    | some d =>
      simp only [Option.some.injEq, exists_eq_left']
      by_cases hstep : value * radix + d < bound
      · rw [if_pos hstep, ih]
        constructor
        · intro h
          obtain ⟨values, hrest, hn, hend⟩ := h
          refine ⟨?_, values, hrest, hn⟩
          rcases hend with rfl | hbound
          · cases hrest
            rw [← hn]
            exact hstep
          · exact hbound
        · intro h
          obtain ⟨hbound, values, hrest, hn⟩ := h
          exact ⟨values, hrest, hn, .inr hbound⟩
      · rw [if_neg hstep]
        simp only [reduceCtorEq, false_iff]
        intro h
        obtain ⟨hbound, values, -, hn⟩ := h
        have hle := le_foldl_digits radix hradix (value * radix + d) values
        omega

theorem foldl_digits_eq_ofDigits (radix : Nat) (values : List Nat) :
    values.foldl (fun v d => v * radix + d) 0 = Nat.ofDigits radix values.reverse := by
  rw [Nat.ofDigits_eq_foldr, List.foldr_reverse]
  congr 1
  funext v d
  rw [Nat.cast_id, Nat.mul_comm, Nat.add_comm]

theorem digits_eq_ok_iff (radix bound : Nat) (hlo : 0 < radix) (hhi : radix ≤ 16)
    (cs : List Char) (n : Nat) :
    digits radix bound cs = .ok n ↔ IsDigits radix cs n ∧ n < bound := by
  cases cs with
  | nil =>
    simp only [digits, reduceCtorEq, false_iff]
    intro h
    obtain ⟨⟨values, hne, hvalues, -⟩, -⟩ := h
    cases hvalues
    exact hne rfl
  | cons c cs =>
    rw [digits, appendDigits_eq_ok_iff radix bound hlo]
    simp only [digit?_eq_some_iff radix hhi, foldl_digits_eq_ofDigits, reduceCtorEq, false_or]
    constructor
    · intro h
      obtain ⟨values, hvalues, hn, hbound⟩ := h
      refine ⟨⟨values, ?_, hvalues, hn⟩, hbound⟩
      rintro rfl
      cases hvalues
    · intro h
      obtain ⟨⟨values, -, hvalues, hn⟩, hbound⟩ := h
      exact ⟨values, hvalues, hn, hbound⟩

/-! ## Signs and marks -/

theorem IsDigits.exists_isDigit {radix n : Nat} {cs : List Char} (h : IsDigits radix cs n)
    {c : Char} (hc : c ∈ cs) : ∃ value, IsDigit radix c value := by
  obtain ⟨values, -, hvalues, -⟩ := h
  clear n
  induction hvalues with
  | nil => cases hc
  | cons hd _ ih =>
    rcases List.mem_cons.mp hc with rfl | hmem
    · exact ⟨_, hd⟩
    · exact ih hmem

theorem IsDigits.not_mem {radix n : Nat} {cs : List Char} (h : IsDigits radix cs n) {c : Char}
    (hc : ∀ value < radix, c.toLower ≠ Nat.digitChar value) : c ∉ cs := by
  intro hmem
  obtain ⟨value, hvalue, hchar⟩ := h.exists_isDigit hmem
  exact hc value hvalue hchar

theorem not_isDigits_nil (radix n : Nat) : ¬ IsDigits radix [] n := by
  rintro ⟨values, hne, hvalues, -⟩
  cases hvalues
  exact hne rfl

theorem natural_eq_ok_iff (radix bound : Nat) (hlo : 0 < radix) (hhi : radix ≤ 16)
    (cs : List Char) (n : Nat) :
    natural radix bound cs = .ok n ↔ IsSigned radix cs n ∧ n < bound := by
  have hplus : ∀ rest, ¬ IsDigits radix ('+' :: rest) n := by
    intro rest h
    refine h.not_mem ?_ (List.mem_cons_self ..)
    have hall : ∀ value < 16, '+'.toLower ≠ Nat.digitChar value := by decide
    intro value hvalue
    exact hall value (by omega)
  have hsigned : ∀ rest, IsSigned radix ('+' :: rest) n ↔ IsDigits radix rest n := by
    intro rest
    constructor
    · rintro (h | ⟨_, ⟨⟩, h⟩)
      · exact absurd h (hplus rest)
      · exact h
    · intro h
      exact .inr ⟨rest, rfl, h⟩
  unfold natural
  split
  · rw [hsigned]
    simp only [reduceCtorEq, false_iff]
    intro h
    exact not_isDigits_nil radix n h.1
  · rw [hsigned, digits_eq_ok_iff radix bound hlo hhi]
  · next hother =>
    have hbare : IsSigned radix cs n ↔ IsDigits radix cs n := by
      constructor
      · rintro (h | ⟨rest, rfl, -⟩)
        · exact h
        · exact (hother rest rfl).elim
      · exact .inl
    rw [hbare, digits_eq_ok_iff radix bound hlo hhi]

theorem unsigned_eq_ok_iff (bound : Nat) (cs : List Char) (n : Nat) :
    unsigned bound cs = .ok n ↔
      n < bound ∧ (IsSigned 10 cs n ∨
        ∃ rest, (cs = '0' :: 'x' :: rest ∨ cs = '0' :: 'X' :: rest) ∧ IsSigned 16 rest n) := by
  -- A mark is no decimal digit, so a marked numeral is not also a decimal one.
  have hmark : ∀ mark rest, (∀ value < 10, mark.toLower ≠ Nat.digitChar value) →
      ¬ IsSigned 10 ('0' :: mark :: rest) n := by
    rintro mark rest hnot (h | ⟨_, ⟨⟩, -⟩)
    exact h.not_mem hnot (by simp)
  unfold unsigned
  split
  · next rest =>
    rw [natural_eq_ok_iff 16 bound (by omega) (by omega), and_comm]
    simp [hmark 'x' rest (by decide)]
  · next rest =>
    rw [natural_eq_ok_iff 16 bound (by omega) (by omega), and_comm]
    simp [hmark 'X' rest (by decide)]
  · next hx hX =>
    rw [natural_eq_ok_iff 10 bound (by omega) (by omega), and_comm]
    have hnone : ¬ ∃ rest, (cs = '0' :: 'x' :: rest ∨ cs = '0' :: 'X' :: rest) ∧
        IsSigned 16 rest n := by
      rintro ⟨rest, hcs | hcs, -⟩
      · exact hx rest hcs
      · exact hX rest hcs
    simp only [hnone, or_false]

theorem unsigned32_eq_ok_iff (s : String) (n : Nat) :
    unsigned32 s = .ok n ↔ IsNumeral s n :=
  unsigned_eq_ok_iff 0x100000000 s.toList n

theorem exists_unsigned32_eq_error_iff (s : String) :
    (∃ fault, unsigned32 s = .error fault) ↔ ∀ n, ¬ IsNumeral s n := by
  simp only [← unsigned32_eq_ok_iff]
  cases unsigned32 s with
  | error fault => simp
  | ok n => simp

/-! ## Decimal digits -/

theorem isDigit_iff_toNat (c : Char) : c.isDigit = true ↔ 48 ≤ c.toNat ∧ c.toNat ≤ 57 := by
  simp [Char.isDigit, UInt32.le_iff_toNat_le]

theorem isDigit_ten_iff (c : Char) (value : Nat) :
    IsDigit 10 c value ↔ c.isDigit = true ∧ c.toNat - 48 = value := by
  rw [← digit?_eq_some_iff 10 (by omega), digit?, Option.filter_eq_some_iff, digitValue?_eq,
    isDigit_iff_toNat, decide_eq_true_eq]
  by_cases hdigit : 48 ≤ c.toNat ∧ c.toNat ≤ 57
  · rw [if_pos hdigit, Option.some.injEq]
    omega
  · rw [if_neg hdigit]
    -- A letter stands for ten or more.
    split
    · simp only [Option.some.injEq]
      omega
    · split
      · simp only [Option.some.injEq]
        omega
      · simp [hdigit]

theorem forall₂_isDigit_ten_iff (cs : List Char) (values : List Nat) :
    List.Forall₂ (IsDigit 10) cs values ↔
      (∀ c ∈ cs, c.isDigit = true) ∧ values = cs.map fun c => c.toNat - 48 := by
  induction cs generalizing values with
  | nil =>
    constructor
    · intro h
      cases h
      exact ⟨by simp, rfl⟩
    · rintro ⟨-, rfl⟩
      exact .nil
  | cons c cs ih =>
    cases values with
    | nil =>
      constructor
      · intro h
        cases h
      · rintro ⟨-, hmap⟩
        cases hmap
    | cons value values =>
      rw [List.forall₂_cons, isDigit_ten_iff, ih, List.forall_mem_cons, List.map_cons,
        List.cons.injEq]
      constructor
      · rintro ⟨⟨hc, rfl⟩, hcs, rfl⟩
        exact ⟨⟨hc, hcs⟩, rfl, rfl⟩
      · rintro ⟨⟨hc, hcs⟩, rfl, rfl⟩
        exact ⟨⟨hc, rfl⟩, hcs, rfl⟩

theorem ofDigits_reverse_map (cs : List Char) :
    Nat.ofDigits 10 (cs.map fun c => c.toNat - 48).reverse = Nat.ofDigitChars 10 cs 0 := by
  rw [← foldl_digits_eq_ofDigits, List.foldl_map, Nat.ofDigitChars_eq_foldl]
  congr 1
  funext value c
  rw [Nat.mul_comm]
  rfl

theorem isDigits_ten_iff (cs : List Char) (n : Nat) :
    IsDigits 10 cs n ↔
      cs ≠ [] ∧ (∀ c ∈ cs, c.isDigit = true) ∧ Nat.ofDigitChars 10 cs 0 = n := by
  simp only [IsDigits, forall₂_isDigit_ten_iff]
  constructor
  · rintro ⟨_, hne, ⟨hcs, rfl⟩, hn⟩
    rw [ofDigits_reverse_map] at hn
    exact ⟨mt List.map_eq_nil_iff.mpr hne, hcs, hn⟩
  · rintro ⟨hne, hcs, hn⟩
    refine ⟨_, ?_, ⟨hcs, rfl⟩, ?_⟩
    · exact mt List.map_eq_nil_iff.mp hne
    · rw [ofDigits_reverse_map, hn]

end Mips.Text
