import Mips.Word.Layout

/-! # Bytes of words

A word is stored as four bytes, lowest first or highest first. -/

namespace Mips
set_option autoImplicit false

inductive ByteOrder where
  | little
  | big
deriving DecidableEq, Repr

namespace ByteOrder

def name : ByteOrder → String
  | .little => "little"
  | .big => "big"

def ofName? : String → Option ByteOrder
  | "little" => some .little
  | "big" => some .big
  | _ => none

end ByteOrder

namespace Word

/-- The byte of a word that holds its bits from `8 * i` up. -/
def byteAt (word : Word) (i : Nat) : UInt8 :=
  UInt8.ofBitVec (word.extractLsb' (8 * i) 8)

def bytes (order : ByteOrder) (word : Word) : List UInt8 :=
  match order with
  | .little => [word.byteAt 0, word.byteAt 1, word.byteAt 2, word.byteAt 3]
  | .big => [word.byteAt 3, word.byteAt 2, word.byteAt 1, word.byteAt 0]

theorem length_bytes (order : ByteOrder) (word : Word) : (bytes order word).length = 4 := by
  cases order <;> rfl

end Word

end Mips
