/-! # Letter case and comments

Names are compared without regard to the case of the letters `A` to `Z`, and a number sign at the
start of a word opens a comment. -/

namespace Mips.Text
set_option autoImplicit false

/-- A text with `A` to `Z` replaced by `a` to `z`, and nothing else changed. -/
def foldCase (s : String) : String :=
  String.ofList (s.toList.map Char.toLower)

theorem toNat_toLower (c : Char) :
    c.toLower.toNat = if 65 ≤ c.toNat ∧ c.toNat ≤ 90 then c.toNat + 32 else c.toNat := by
  unfold Char.toLower
  split
  · next hletter =>
    have hlo : 65 ≤ c.toNat := UInt32.le_iff_toNat_le.mp hletter.1
    have hhi : c.toNat ≤ 90 := UInt32.le_iff_toNat_le.mp hletter.2
    have hsum : (c.val + 32).toNat = (c.toNat + 32) % 4294967296 := UInt32.toNat_add ..
    rw [if_pos ⟨hlo, hhi⟩]
    show (c.val + 32).toNat = c.toNat + 32
    omega
  · next hother =>
    rw [if_neg]
    intro hrange
    exact hother ⟨UInt32.le_iff_toNat_le.mpr hrange.1, UInt32.le_iff_toNat_le.mpr hrange.2⟩

def opensComment (s : String) : Bool :=
  s.toList.head? == some '#'

end Mips.Text
