import Mips.Proofs.Text.NumeralGrammar
import Mips.Proofs.Text.Numerals
import Mips.Proofs.Text.Trimming
import Mips.Word.Layout

/-! # The two readers of numerals

`unsigned32` reads a numeral that stands alone, and `unsigned32Trimmed` one with white space around it.
No character of a numeral is blank (`IsNumeral.not_isBlank`), so the first reads exactly the texts
that the second reads and that need no trimming (`unsigned32_eq_ok_iff_trimmed`). -/

namespace Mips.Text
set_option autoImplicit false

/-! ## The characters of numerals -/

theorem IsDigit.not_isBlank {radix value : Nat} {c : Char} (h : IsDigit radix c value)
    (hradix : radix ≤ 16) : isBlank c = false := by
  obtain ⟨hvalue, hchar⟩ := h
  have hcode := congrArg Char.toNat hchar
  rw [toNat_toLower, toNat_digitChar value (by omega)] at hcode
  -- The codes are those of `0` to `9`, of `a` to `f` or of `A` to `F`.
  apply not_isBlank_of_visible
  · split at hcode <;> split at hcode <;> omega
  · split at hcode <;> split at hcode <;> omega

theorem IsSigned.not_isBlank {radix n : Nat} {cs : List Char} (h : IsSigned radix cs n)
    (hradix : radix ≤ 16) {c : Char} (hc : c ∈ cs) : isBlank c = false := by
  have hdigits (rest : List Char) (hrest : IsDigits radix rest n) (hmem : c ∈ rest) :
      isBlank c = false := by
    obtain ⟨value, hdigit⟩ := hrest.exists_isDigit hmem
    exact hdigit.not_isBlank hradix
  rcases h with h | ⟨rest, rfl, h⟩
  · exact hdigits cs h hc
  · rcases List.mem_cons.mp hc with rfl | hmem
    · decide
    · exact hdigits rest h hmem

theorem IsNumeral.not_isBlank {s : String} {n : Nat} (h : IsNumeral s n) :
    ∀ c ∈ s.toList, isBlank c = false := by
  intro c hc
  obtain ⟨-, hdecimal | ⟨rest, hmark, hhex⟩⟩ := h
  · exact hdecimal.not_isBlank (by omega) hc
  · have hmarked (mark : Char) (hblank : isBlank mark = false)
        (hs : s.toList = '0' :: mark :: rest) : isBlank c = false := by
      rw [hs, List.mem_cons, List.mem_cons] at hc
      rcases hc with rfl | rfl | hmem
      · decide
      · exact hblank
      · exact hhex.not_isBlank (by omega) hmem
    rcases hmark with hs | hs
    · exact hmarked 'x' (by decide) hs
    · exact hmarked 'X' (by decide) hs

/-! ## White space around numerals -/

theorem unsigned32Trimmed_eq (s : String) : unsigned32Trimmed s = unsigned32 (trim s) := by
  rw [unsigned32Trimmed, unsigned32, trim, String.toList_ofList]

theorem unsigned32Trimmed_eq_ok_iff (s : String) (n : Nat) :
    unsigned32Trimmed s = .ok n ↔ ∃ core, TrimsTo s core ∧ IsNumeral core n := by
  simp only [unsigned32Trimmed_eq, unsigned32_eq_ok_iff, trimsTo_iff, exists_eq_left']

theorem unsigned32_eq_ok_iff_trimmed (s : String) (n : Nat) :
    unsigned32 s = .ok n ↔ IsTrimmed s ∧ unsigned32Trimmed s = .ok n := by
  constructor
  · intro h
    have htrimmed : IsTrimmed s :=
      isTrimmed_of_not_isBlank ((unsigned32_eq_ok_iff s n).mp h).not_isBlank
    refine ⟨htrimmed, ?_⟩
    rw [unsigned32Trimmed_eq, trim_eq_self htrimmed, h]
  · rintro ⟨htrimmed, h⟩
    rw [unsigned32Trimmed_eq, trim_eq_self htrimmed] at h
    exact h

/-- A text is read as a number if it is a numeral of it with white space around, and not otherwise.
The reader that does not trim gives the same number for a text without white space around it, and
refuses all other texts. A word is read back from its decimal digits and from its eight hexadecimal
digits. -/
theorem unsigned32_reads_numerals (s : String) (word : Word) :
    (∀ n, unsigned32Trimmed s = .ok n ↔ ∃ core, TrimsTo s core ∧ IsNumeral core n) ∧
    (∀ n, unsigned32 s = .ok n ↔ IsTrimmed s ∧ unsigned32Trimmed s = .ok n) ∧
    unsigned32Trimmed (toString word.toNat) = .ok word.toNat ∧
    unsigned32Trimmed (hex0x 8 word.toNat) = .ok word.toNat := by
  have hword : word.toNat < 2 ^ 32 := word.isLt
  have hdecimal : unsigned32 (toString word.toNat) = .ok word.toNat :=
    unsigned32_repr word.toNat hword
  have hhex : unsigned32 (hex0x 8 word.toNat) = .ok word.toNat :=
    unsigned32_hex0x 8 word.toNat (by omega) (by omega) hword
  refine ⟨unsigned32Trimmed_eq_ok_iff s, unsigned32_eq_ok_iff_trimmed s, ?_, ?_⟩
  · exact ((unsigned32_eq_ok_iff_trimmed _ _).mp hdecimal).2
  · exact ((unsigned32_eq_ok_iff_trimmed _ _).mp hhex).2

/-- The sign stands between the mark and the digits. -/
example :
    unsigned32Trimmed "\u3000 0X+00000000fF\t" = .ok 255 ∧
      unsigned32 "0X+00000000fF\t" = .error .invalidDigit ∧
      unsigned32Trimmed "+0x5" = .error .invalidDigit ∧ unsigned32Trimmed "0x" = .error .empty ∧
      unsigned32Trimmed "4294967296" = .error .tooLarge := by
  decide

end Mips.Text
