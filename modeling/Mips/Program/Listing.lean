import Mips.Program.Basic
import Mips.Program.Disassembly

/-! # Listings

A listing shows a program slot by slot: address, word, the word disassembled, the source text, and
the label declared on the line. Its labels come with their addresses. -/

namespace Mips
set_option autoImplicit false

structure Listing.Entry where
  slot : Nat
  address : Address
  word : Word
  disassembly : String
  /-- The source text, trimmed. -/
  source : String
  label : Option String
  truncated : Option NarrowField
deriving DecidableEq, Repr

/-- A label with the slot and the address it stands for. -/
structure PlacedLabel where
  name : String
  slot : Nat
  address : Address
deriving DecidableEq, Repr

structure Listing where
  base : Address
  entries : List Listing.Entry
  labels : List PlacedLabel
deriving DecidableEq, Repr

/-- The entry of a slot, with its word disassembled by an instruction set. -/
def Listing.Entry.ofSlot (instructions : InstructionSet) (slot : Slot) : Listing.Entry where
  slot := slot.statement.slot
  address := slot.address
  word := slot.encoding.word
  disassembly := instructions.disassemble slot.encoding.word slot.address
  source := Text.trim slot.statement.text
  label := slot.statement.label
  truncated := slot.encoding.truncated

namespace Program

def placedLabels (program : Program) : List PlacedLabel :=
  program.symbols.toList.map fun label => ⟨label.name, label.slot, program.addressOf label.slot⟩

def listing (program : Program) (instructions : InstructionSet) : Listing where
  base := program.base
  entries := program.slots.map (Listing.Entry.ofSlot instructions)
  labels := program.placedLabels

end Program

/-! ## Rendering -/

namespace Listing

/-- The line of a label that stands before its slot. -/
def Entry.labelLine (entry : Entry) : String :=
  match entry.label with
  | none => ""
  | some label => Address.text entry.address ++ " <" ++ label ++ ">:\n"

def Entry.sourceColumn (showSource : Bool) (entry : Entry) : String :=
  if showSource && !entry.source.isEmpty then "  ; " ++ entry.source else ""

/-- Address, word and disassembly, with the source text after a semicolon if it is asked for. -/
def Entry.columns (showSource : Bool) (entry : Entry) : String :=
  "  " ++ Address.text entry.address ++ ": " ++ Text.hex 8 entry.word.toNat ++ "  " ++
    Text.alignLeft 28 entry.disassembly ++ entry.sourceColumn showSource

/-- The entry at the end of a text. The whole text is trimmed before the line is ended. -/
def Entry.appendTo (showSource : Bool) (text : String) (entry : Entry) : String :=
  Text.trimRight (text ++ entry.labelLine ++ entry.columns showSource) ++ "\n"

def render (listing : Listing) (showSource : Bool) : String :=
  listing.entries.foldl (Entry.appendTo showSource) ""

end Listing

def PlacedLabel.render (label : PlacedLabel) : String :=
  Address.text label.address ++ " " ++ Text.alignRight 5 (toString label.slot) ++ " " ++
    label.name ++ "\n"

def PlacedLabel.renderAll (labels : List PlacedLabel) : String :=
  String.join (labels.map PlacedLabel.render)

end Mips
