import Mathlib.Algebra.Group.Int.Defs
import Mathlib.Algebra.Group.Nat.Defs
import Mips.Proofs.Text.Tokens
import Mips.Text.Hex
import Mips.Text.Numeral

/-! # Written numbers

Numbers are written in decimal, and addresses and codes with a fixed number of hexadecimal digits.
Both are tokens, a written number reads back as itself (`integer64_toString`, `unsigned32_repr`,
`unsigned32_hex0x`), and different addresses are written differently (`hexChars_injective`). -/

namespace Mips.Text
set_option autoImplicit false

/-! ## Digits -/

theorem digitValue?_digitChar : ∀ n < 16, digitValue? (Nat.digitChar n) = some n := by
  decide

theorem isTokenSeparator_digitChar : ∀ n < 16, isTokenSeparator (Nat.digitChar n) = false := by
  decide

theorem digitChar_injective :
    ∀ m < 16, ∀ n < 16, Nat.digitChar m = Nat.digitChar n → m = n := by
  decide

theorem digit?_digitChar (radix n : Nat) (hradix : radix ≤ 16) (hn : n < radix) :
    digit? radix (Nat.digitChar n) = some n := by
  rw [digit?, digitValue?_digitChar n (by omega)]
  simp [Option.filter, hn]

theorem appendDigits_append (radix bound value : Nat) (before after : List Char) :
    appendDigits radix bound value (before ++ after) =
      appendDigits radix bound value before >>= fun v => appendDigits radix bound v after := by
  induction before generalizing value with
  | nil => rfl
  | cons c before ih =>
    rw [List.cons_append, appendDigits, appendDigits]
    cases digit? radix c with
    | none => rfl
    | some d =>
      simp only
      by_cases hbound : value * radix + d < bound
      · rw [if_pos hbound, if_pos hbound, ih]
      · rw [if_neg hbound, if_neg hbound]
        rfl

theorem appendDigits_digitChar (radix bound value n : Nat) (hradix : radix ≤ 16) (hn : n < radix)
    (hbound : value * radix + n < bound) :
    appendDigits radix bound value [Nat.digitChar n] = .ok (value * radix + n) := by
  rw [appendDigits, digit?_digitChar radix n hradix hn]
  simp only
  rw [if_pos hbound]
  rfl

/-! ## Decimal numbers -/

theorem appendDigits_toDigits (radix bound n : Nat) (hone : 1 < radix) (hradix : radix ≤ 16)
    (hbound : n < bound) : appendDigits radix bound 0 (Nat.toDigits radix n) = .ok n := by
  induction n using Nat.strongRecOn with
  | ind n ih =>
    by_cases hn : n < radix
    · rw [Nat.toDigits_of_lt_base hn]
      have h := appendDigits_digitChar radix bound 0 n hradix hn (by omega)
      rw [Nat.zero_mul, Nat.zero_add] at h
      exact h
    · have hdiv : n / radix < n := Nat.div_lt_self (by omega) hone
      have hmod : n % radix < radix := Nat.mod_lt n (by omega)
      have hsum : n / radix * radix + n % radix = n := Nat.div_add_mod' n radix
      rw [Nat.toDigits_of_base_le hone (by omega), appendDigits_append,
        ih (n / radix) hdiv (by omega)]
      have h := appendDigits_digitChar radix bound (n / radix) (n % radix) hradix hmod (by omega)
      rw [hsum] at h
      exact h

theorem digits_toDigits (bound n : Nat) (hbound : n < bound) :
    digits 10 bound (Nat.toDigits 10 n) = .ok n := by
  have happend := appendDigits_toDigits 10 bound n (by omega) (by omega) hbound
  cases hdigits : Nat.toDigits 10 n with
  | nil => exact absurd hdigits Nat.toDigits_ne_nil
  | cons c cs =>
    rw [hdigits] at happend
    exact happend

theorem not_mem_toDigits {c : Char} (hc : c.isDigit = false) (n : Nat) :
    c ∉ Nat.toDigits 10 n := by
  intro hmem
  have hdigit := Nat.isDigit_of_mem_toDigits (by omega) (by omega) hmem
  rw [hc] at hdigit
  cases hdigit

theorem natural_toDigits (bound n : Nat) (hbound : n < bound) :
    natural 10 bound (Nat.toDigits 10 n) = .ok n := by
  have hdigits := digits_toDigits bound n hbound
  have hplus : '+' ∉ Nat.toDigits 10 n := not_mem_toDigits (by decide) n
  unfold natural
  split
  · next h => exact absurd (by rw [h]; exact List.mem_cons_self ..) hplus
  · next cs _ h => exact absurd (by rw [h]; exact List.mem_cons_self ..) hplus
  · exact hdigits

theorem unsigned32_repr (n : Nat) (hn : n < 2 ^ 32) : unsigned32 n.repr = .ok n := by
  have hx : 'x' ∉ Nat.toDigits 10 n := not_mem_toDigits (by decide) n
  have hX : 'X' ∉ Nat.toDigits 10 n := not_mem_toDigits (by decide) n
  unfold unsigned32 unsigned
  rw [Nat.toList_repr]
  split
  · next cs h => exact absurd (by rw [h]; simp) hx
  · next cs _ h => exact absurd (by rw [h]; simp) hX
  · exact natural_toDigits 0x100000000 n (by omega)

theorem integer64_repr (n : Nat) (hn : n < 2 ^ 63) : integer64 n.repr = some (n : Int) := by
  have hminus : '-' ∉ Nat.toDigits 10 n := not_mem_toDigits (by decide) n
  unfold integer64
  rw [Nat.toList_repr]
  split
  · next cs h => exact absurd (by rw [h]; exact List.mem_cons_self ..) hminus
  · rw [natural_toDigits 0x8000000000000000 n (by omega)]
    rfl

theorem integer64_neg_repr (n : Nat) (hn : n ≤ 2 ^ 63) :
    integer64 ("-" ++ n.repr) = some (-(n : Int)) := by
  have hlist : ("-" ++ n.repr).toList = '-' :: Nat.toDigits 10 n := by
    rw [String.toList_append, Nat.toList_repr]
    rfl
  unfold integer64
  rw [hlist]
  simp only
  rw [digits_toDigits _ n (by omega)]
  rfl

theorem integer64_toString (value : Int) (hlo : -2 ^ 63 ≤ value) (hhi : value < 2 ^ 63) :
    integer64 (toString value) = some value := by
  rw [Int.toString_eq_repr, Int.repr_eq_if]
  by_cases hvalue : 0 ≤ value
  · rw [if_pos hvalue, integer64_repr value.toNat (by omega)]
    congr 1
    omega
  · rw [if_neg hvalue, integer64_neg_repr (-value).toNat (by omega)]
    congr 1
    omega

/-- The characters from `!` to `~` are not blank. -/
theorem not_isBlank_of_visible (c : Char) (hlo : 33 ≤ c.toNat) (hhi : c.toNat ≤ 126) :
    isBlank c = false := by
  simp only [isBlank, blankRanges, List.any_cons, List.any_nil, Bool.or_false,
    Bool.or_eq_false_iff, Bool.and_eq_false_iff, decide_eq_false_iff_not]
  omega

theorem isTokenSeparator_of_isDigit (c : Char) (h : c.isDigit = true) :
    isTokenSeparator c = false := by
  have hrange : 48 ≤ c.toNat ∧ c.toNat ≤ 57 := by
    simpa [Char.isDigit, UInt32.le_iff_toNat_le] using h
  have hblank : isBlank c = false := not_isBlank_of_visible c (by omega) (by omega)
  have hcomma : c ≠ ',' := by
    intro hc
    rw [hc] at hrange
    revert hrange
    decide
  simp [isTokenSeparator, hblank, hcomma]

theorem isToken_repr (n : Nat) : IsToken n.repr := by
  refine ⟨?_, ?_⟩
  · intro h
    rw [← String.toList_inj, Nat.toList_repr] at h
    exact Nat.toDigits_ne_nil h
  · intro c hc
    rw [Nat.toList_repr] at hc
    exact isTokenSeparator_of_isDigit c (Nat.isDigit_of_mem_toDigits (by omega) (by omega) hc)

theorem isToken_toString (value : Int) : IsToken (toString value) := by
  rw [Int.toString_eq_repr, Int.repr_eq_if]
  by_cases hvalue : 0 ≤ value
  · rw [if_pos hvalue]
    exact isToken_repr _
  · rw [if_neg hvalue]
    have hminus : IsToken "-" := by decide
    exact hminus.append (isToken_repr _).not_separator

theorem isPlainToken_repr (n : Nat) : IsPlainToken n.repr := by
  refine ⟨isToken_repr n, ?_⟩
  rw [opensComment, Nat.toList_repr, beq_eq_false_iff_ne]
  intro hhead
  exact not_mem_toDigits (by decide) _ (List.mem_of_head? hhead)

theorem isPlainToken_toString (value : Int) : IsPlainToken (toString value) := by
  refine ⟨isToken_toString value, ?_⟩
  rw [Int.toString_eq_repr, Int.repr_eq_if]
  by_cases hvalue : 0 ≤ value
  · rw [if_pos hvalue]
    exact (isPlainToken_repr _).not_comment
  · rw [if_neg hvalue, opensComment, String.toList_append]
    rfl

/-! ## Hexadecimal numbers -/

theorem mem_hexChars {width n : Nat} {c : Char} (h : c ∈ hexChars width n) :
    ∃ d < 16, c = Nat.digitChar d := by
  induction width generalizing n with
  | zero => cases h
  | succ width ih =>
    rw [hexChars, List.mem_append, List.mem_singleton] at h
    rcases h with h | h
    · exact ih h
    · exact ⟨n % 16, Nat.mod_lt n (by omega), h⟩

theorem hexChars_injective (width m n : Nat) (hm : m < 16 ^ width) (hn : n < 16 ^ width)
    (h : hexChars width m = hexChars width n) : m = n := by
  induction width generalizing m n with
  | zero => omega
  | succ width ih =>
    rw [Nat.pow_succ] at hm hn
    rw [hexChars, hexChars] at h
    obtain ⟨hhigh, hlow⟩ := List.append_inj' h rfl
    have h1 := ih (m / 16) (n / 16) (by omega) (by omega) hhigh
    have h2 := digitChar_injective (m % 16) (Nat.mod_lt m (by omega)) (n % 16)
      (Nat.mod_lt n (by omega)) (List.head_eq_of_cons_eq hlow)
    omega

theorem appendDigits_hexChars (bound width value n : Nat) (hn : n < 16 ^ width)
    (hbound : value * 16 ^ width + n < bound) :
    appendDigits 16 bound value (hexChars width n) = .ok (value * 16 ^ width + n) := by
  induction width generalizing n with
  | zero =>
    have hzero : n = 0 := by omega
    rw [hzero, Nat.pow_zero, Nat.mul_one]
    rfl
  | succ width ih =>
    rw [Nat.pow_succ] at hn
    rw [Nat.pow_succ, ← Nat.mul_assoc] at hbound ⊢
    have hlow : n % 16 < 16 := Nat.mod_lt n (by omega)
    have hsum : (value * 16 ^ width + n / 16) * 16 + n % 16 = value * 16 ^ width * 16 + n := by
      omega
    rw [hexChars, appendDigits_append, ih (n / 16) (by omega) (by omega)]
    have h := appendDigits_digitChar 16 bound (value * 16 ^ width + n / 16) (n % 16) (by omega)
      hlow (by omega)
    rw [hsum] at h
    exact h

theorem natural_hexChars (bound width n : Nat) (hwidth : 0 < width) (hn : n < 16 ^ width)
    (hbound : n < bound) : natural 16 bound (hexChars width n) = .ok n := by
  have happend := appendDigits_hexChars bound width 0 n hn (by omega)
  rw [Nat.zero_mul, Nat.zero_add] at happend
  have hplus : '+' ∉ hexChars width n := by
    intro hmem
    obtain ⟨d, hd, hplus⟩ := mem_hexChars hmem
    revert d
    decide
  have hlength := length_hexChars width n
  cases hchars : hexChars width n with
  | nil =>
    rw [hchars, List.length_nil] at hlength
    omega
  | cons c cs =>
    rw [hchars] at happend hplus
    have hc : c ≠ '+' := fun h => hplus (by rw [h]; exact List.mem_cons_self ..)
    unfold natural
    split
    · next h => exact absurd (List.head_eq_of_cons_eq h) hc
    · next h => exact absurd (List.head_eq_of_cons_eq h) hc
    · exact happend

theorem toList_hex0x (width n : Nat) :
    (hex0x width n).toList = '0' :: 'x' :: hexChars width n := by
  simp [hex0x, hex]

theorem unsigned32_hex0x (width n : Nat) (hwidth : 0 < width) (hn : n < 16 ^ width)
    (hbound : n < 2 ^ 32) : unsigned32 (hex0x width n) = .ok n := by
  rw [unsigned32, toList_hex0x]
  exact natural_hexChars 0x100000000 width n hwidth hn (by omega)

theorem isToken_hex0x (width n : Nat) : IsToken (hex0x width n) := by
  rw [hex0x]
  have hradix : IsToken "0x" := by decide
  apply hradix.append
  intro c hc
  rw [hex, String.toList_ofList] at hc
  obtain ⟨d, hd, rfl⟩ := mem_hexChars hc
  exact isTokenSeparator_digitChar d hd

theorem isPlainToken_hex0x (width n : Nat) : IsPlainToken (hex0x width n) := by
  refine ⟨isToken_hex0x width n, ?_⟩
  rw [opensComment, toList_hex0x]
  rfl

theorem hex0x_injective (width m n : Nat) (hm : m < 16 ^ width) (hn : n < 16 ^ width)
    (h : hex0x width m = hex0x width n) : m = n := by
  rw [← String.toList_inj, toList_hex0x, toList_hex0x] at h
  exact hexChars_injective width m n hm hn (List.cons.inj (List.cons.inj h).2).2

end Mips.Text
