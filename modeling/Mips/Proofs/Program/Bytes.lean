import Mathlib.Data.Nat.Digits.Defs
import Mips.Program.Basic

/-! # Programs as bytes

The bytes of a program are those of its words, four for each, with nothing before, between or after
them.

* `byteGroups`: consecutive groups of four bytes.
* `Word.ofGroup`, `Word.readAll`: the number that a group stands for in a byte order, its bytes being
  digits to the base 256, and the words that bytes are read as.
* `Program.bytes_lossless`: in either order the words of a program are read back from its bytes. -/

namespace Mips
set_option autoImplicit false

/-! ## Groups of four -/

/-- The last group has fewer bytes if they do not come out even. -/
def byteGroups : List UInt8 → List (List UInt8)
  | [] => []
  | a :: b :: c :: d :: rest => [a, b, c, d] :: byteGroups rest
  | rest => [rest]

namespace Word

/-- The bytes of a group from the lowest place to the highest. -/
def lowestFirst (group : List UInt8) : ByteOrder → List UInt8
  | .little => group
  | .big => group.reverse

def ofGroup (order : ByteOrder) (group : List UInt8) : Word :=
  BitVec.ofNat 32 (Nat.ofDigits 256 ((lowestFirst group order).map UInt8.toNat))

def readAll (order : ByteOrder) (bytes : List UInt8) : List Word :=
  (byteGroups bytes).map (ofGroup order)

theorem toNat_byteAt (word : Word) (i : Nat) :
    (word.byteAt i).toNat = word.toNat / 2 ^ (8 * i) % 256 := by
  show (word.extractLsb' (8 * i) 8).toNat = _
  rw [BitVec.extractLsb'_toNat, Nat.shiftRight_eq_div_pow]

/-- The lowest byte is the first in one order and the last in the other. -/
theorem lowestFirst_bytes (order : ByteOrder) (word : Word) :
    lowestFirst (bytes order word) order =
      [word.byteAt 0, word.byteAt 1, word.byteAt 2, word.byteAt 3] := by
  cases order <;> rfl

theorem ofGroup_bytes (order : ByteOrder) (word : Word) :
    ofGroup order (bytes order word) = word := by
  have hword := word.isLt
  rw [ofGroup, lowestFirst_bytes]
  apply BitVec.eq_of_toNat_eq
  simp only [List.map_cons, List.map_nil, Nat.ofDigits_cons, Nat.ofDigits_nil,
    toNat_byteAt, BitVec.toNat_ofNat]
  omega

theorem reverse_bytes_little (word : Word) : (bytes .little word).reverse = bytes .big word :=
  rfl

/-! ## The bytes of many words -/

theorem length_flatMap_bytes (order : ByteOrder) (words : List Word) :
    (words.flatMap (bytes order)).length = 4 * words.length := by
  induction words with
  | nil => rfl
  | cons word words ih =>
    rw [List.flatMap_cons, List.length_append, length_bytes, ih, List.length_cons]
    omega

theorem byteGroups_flatMap_bytes (order : ByteOrder) (words : List Word) :
    byteGroups (words.flatMap (bytes order)) = words.map (bytes order) := by
  induction words with
  | nil => rfl
  | cons word words ih =>
    have hstep : byteGroups (bytes order word ++ words.flatMap (bytes order)) =
        bytes order word :: byteGroups (words.flatMap (bytes order)) := by
      cases order <;> rfl
    rw [List.flatMap_cons, hstep, ih, List.map_cons]

theorem readAll_flatMap_bytes (order : ByteOrder) (words : List Word) :
    readAll order (words.flatMap (bytes order)) = words := by
  have hread : ofGroup order ∘ bytes order = id := funext (ofGroup_bytes order)
  rw [readAll, byteGroups_flatMap_bytes, List.map_map, hread, List.map_id]

end Word

namespace Program

theorem bytes_eq_flatMap_words (program : Program) (order : ByteOrder) :
    program.bytes order = program.words.flatMap (Word.bytes order) := by
  rw [bytes, words, List.flatMap_map]

/-- In either byte order a program has four bytes for each slot, and its words are read back from
them, so that programs have the same bytes only if they have the same words. The one order is the
other with each group of four reversed. -/
theorem bytes_lossless (program : Program) (order : ByteOrder) :
    (program.bytes order).length = 4 * program.size ∧
    Word.readAll order (program.bytes order) = program.words ∧
    (∀ other : Program, other.bytes order = program.bytes order ↔ other.words = program.words) ∧
    program.bytes .big = (byteGroups (program.bytes .little)).flatMap List.reverse := by
  have hread (p : Program) : Word.readAll order (p.bytes order) = p.words := by
    rw [bytes_eq_flatMap_words, Word.readAll_flatMap_bytes]
  refine ⟨?_, hread program, ?_, ?_⟩
  · rw [bytes_eq_flatMap_words, Word.length_flatMap_bytes, words, List.length_map, size]
  · intro other
    constructor
    · intro hbytes
      rw [← hread other, hbytes, hread program]
    · intro hwords
      rw [bytes_eq_flatMap_words, hwords, bytes_eq_flatMap_words]
  · rw [bytes_eq_flatMap_words, bytes_eq_flatMap_words, Word.byteGroups_flatMap_bytes,
      List.flatMap_map]
    have hreverse : Word.bytes .big = fun word => (Word.bytes .little word).reverse :=
      funext fun word => (Word.reverse_bytes_little word).symm
    rw [hreverse]

end Program

end Mips
