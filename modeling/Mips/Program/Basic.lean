import Mips.Operation.Encoding
import Mips.Text.Hex
import Mips.Word.Bytes

/-! # Programs

An assembled program has one slot for each line of its source, in order, and the symbol table of
the source. The slot of a line holds the statement, the address it is loaded at, and the encoding.

* `Program.placedWords`: the words of a program with their slots, addresses and source texts.
* `Program.addressOf`: the address of any slot, by its number. -/

namespace Mips
set_option autoImplicit false

/-- A line with its address and its encoding. -/
structure Slot where
  statement : Statement
  address : Address
  encoding : Encoding
deriving DecidableEq, Repr

/-- A word with the slot it takes, the address it is loaded at, the field that its last operand did
not fit, and the text of its line. -/
structure PlacedWord where
  slot : Nat
  address : Address
  word : Word
  truncated : Option NarrowField
  source : String
deriving DecidableEq, Repr

def Slot.placedWord (slot : Slot) : PlacedWord where
  slot := slot.statement.slot
  address := slot.address
  word := slot.encoding.word
  truncated := slot.encoding.truncated
  source := slot.statement.text

structure Program where
  base : Address
  slots : List Slot
  symbols : Symbols

namespace Program

def size (program : Program) : Nat :=
  program.slots.length

def statements (program : Program) : List Statement :=
  program.slots.map Slot.statement

def addressOf (program : Program) (slot : Nat) : Address :=
  slotAddress program.base slot

/-! ## Words -/

def placedWords (program : Program) : List PlacedWord :=
  program.slots.map Slot.placedWord

def words (program : Program) : List Word :=
  program.slots.map (·.encoding.word)

def word? (program : Program) (slot : Nat) : Option Word :=
  program.slots[slot]?.map (·.encoding.word)

/-- The word loaded at an address, if one of the slots is loaded there. -/
def wordAt? (program : Program) (address : Address) : Option Word :=
  let offset := (address - program.base).toNat
  if offset % 4 = 0 then program.word? (offset / 4) else none

/-- The slots with an operand that was cut. -/
def truncatedSlots (program : Program) : List Slot :=
  program.slots.filter (·.encoding.truncated.isSome)

def bytes (program : Program) (order : ByteOrder) : List UInt8 :=
  program.slots.flatMap fun slot => Word.bytes order slot.encoding.word

end Program

/-! ## Rendering -/

/-- Address and word, then the source text unless that is blank. -/
def PlacedWord.render (placed : PlacedWord) : String :=
  let source := Text.trim placed.source
  Text.hex0x 8 placed.address.toNat ++ ": " ++ Text.hex0x 8 placed.word.toNat ++
    (if source.isEmpty then "\n" else "  " ++ source ++ "\n")

def Program.render (program : Program) : String :=
  String.join (program.placedWords.map PlacedWord.render)

end Mips
