/-! # White space

The characters with the Unicode property `White_Space`, and the trimming of a text at its ends.

* `isBlank`: membership in the property, by a table of ranges.
* `trim`, `trimRight`: a text without blank characters at both ends, or at its right end. -/

namespace Mips.Text
set_option autoImplicit false

/-- The code points with the property `White_Space`, as closed ranges in increasing order. -/
def blankRanges : List (Nat × Nat) :=
  [(0x9, 0xD), (0x20, 0x20), (0x85, 0x85), (0xA0, 0xA0), (0x1680, 0x1680), (0x2000, 0x200A),
   (0x2028, 0x2029), (0x202F, 0x202F), (0x205F, 0x205F), (0x3000, 0x3000)]

def isBlank (c : Char) : Bool :=
  blankRanges.any fun (lo, hi) => lo ≤ c.toNat && c.toNat ≤ hi

/-! ## Trimming -/

def trimRightChars (cs : List Char) : List Char :=
  (cs.reverse.dropWhile isBlank).reverse

def trimChars (cs : List Char) : List Char :=
  trimRightChars (cs.dropWhile isBlank)

def trimRight (s : String) : String :=
  String.ofList (trimRightChars s.toList)

def trim (s : String) : String :=
  String.ofList (trimChars s.toList)

end Mips.Text
