import Mips.Instruction.Set
import Mips.Json.Document
import Mips.Program.Listing
import Mips.Register.File

/-! # Tables and listings as JSON documents

The members stand in a fixed order. Words and addresses are printed without a sign, the values of
registers with one. A field that was cut is named, and an empty text stands for none. -/

namespace Mips
set_option autoImplicit false

namespace Json

def nat (n : Nat) : Json :=
  .integer n

def word (w : Word) : Json :=
  nat w.toNat

def signedWord (w : Word) : Json :=
  .integer w.toInt

def optionalString : Option String → Json
  | none => .null
  | some s => .string s

end Json

/-- The name of the field that was cut, or nothing. -/
def truncationText : Option NarrowField → String
  | none => ""
  | some field => field.name

def Definition.toJson (d : Definition) : Json :=
  .object [("name", .string d.name), ("format", .string d.format.letter),
    ("opcode", Json.nat d.opcode.toNat), ("funct", Json.nat d.funct.toNat)]

def InstructionSet.toJson (set : InstructionSet) : Json :=
  .array (set.toList.map Definition.toJson)

def RegisterFile.toJson (file : RegisterFile) : Json :=
  .object [("gpr", .array (file.general.toList.map Json.signedWord)), ("pc", Json.word file.pc),
    ("hi", Json.signedWord file.hi), ("lo", Json.signedWord file.lo),
    ("base", Json.word file.base)]

def PlacedLabel.toJson (label : PlacedLabel) : Json :=
  .object [("name", .string label.name), ("index", Json.nat label.slot),
    ("addr", Json.word label.address)]

def PlacedLabel.allToJson (labels : List PlacedLabel) : Json :=
  .array (labels.map PlacedLabel.toJson)

def Listing.Entry.toJson (entry : Listing.Entry) : Json :=
  .object [("index", Json.nat entry.slot), ("address", Json.word entry.address),
    ("word", Json.word entry.word), ("disasm", .string entry.disassembly),
    ("source", .string entry.source), ("label", Json.optionalString entry.label),
    ("overflow", .string (truncationText entry.truncated))]

def Listing.toJson (listing : Listing) : Json :=
  .object [("base", Json.word listing.base),
    ("entries", .array (listing.entries.map Listing.Entry.toJson)),
    ("labels", PlacedLabel.allToJson listing.labels)]

end Mips
