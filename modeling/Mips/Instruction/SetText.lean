import Mips.Instruction.Set
import Mips.Text.Hex
import Mips.Text.Numeral
import Mips.Text.Split

/-! # Instruction sets as text

A definition text has one record on a line: name, format, opcode and function code, divided by
blank characters. Blank lines and lines that start with a number sign are skipped. The first line
that is left may hold a single numeral, the number of records that follow.

* `InstructionSet.parse`: reads such a text. Faults are found in the order of the lines, and a
  wrong record count is reported last.
* `InstructionSet.toText`: writes a set as such a text, record count first.
* `InstructionSet.render`: the set as a table for a reader. -/

namespace Mips
set_option autoImplicit false

/-! ## Faults -/

/-- The two codes of a record. -/
inductive CodeField where
  | opcode
  | funct
deriving DecidableEq, Repr

def CodeField.name : CodeField → String
  | .opcode => "opcode"
  | .funct => "funct"

inductive RecordFault where
  | countExpected
  | recordExpected
  | unknownFormat (text : String)
  | badCode (field : CodeField) (text : String)
  | wideCode (field : CodeField) (value : Nat)
  | countMismatch (stated found : Nat)
deriving DecidableEq, Repr

def unknownFormatMessage (text : String) : String :=
  s!"unknown format `{text}` (expected R, I or J)"

def RecordFault.message : RecordFault → String
  | .countExpected => "expected a record count"
  | .recordExpected => "expected `<name> <format> <opcode> <funct>`"
  | .unknownFormat text => unknownFormatMessage text
  | .badCode field text => s!"bad {field.name} `{text}`"
  | .wideCode field value => s!"{field.name} {Text.shortHex0x value} does not fit in 6 bits"
  | .countMismatch stated found => s!"record count says {stated}, found {found}"

inductive DefinitionFault where
  /-- A line, counted from zero, that is no record or no count. -/
  | malformed (line : Nat) (fault : RecordFault)
  | nameTaken (name : String)
deriving DecidableEq, Repr

def DefinitionFault.message : DefinitionFault → String
  | .malformed line fault => s!"instruction definitions, line {line + 1}: {fault.message}"
  | .nameTaken name => s!"instruction `{name}` is defined more than once"

/-! ## Reading -/

def readCode (field : CodeField) (text : String) : Except RecordFault Byte :=
  match Text.unsigned32 text with
  | .error _ => .error (.badCode field text)
  | .ok value =>
    if value < 64 then .ok (BitVec.ofNat 8 value) else .error (.wideCode field value)

def readFormat (text : String) : Except RecordFault Format :=
  match Format.ofLetter? text with
  | none => .error (.unknownFormat text)
  | some format => .ok format

def Definition.ofFields : List String → Except RecordFault Definition
  | [name, format, opcode, funct] => do
    let format ← readFormat format
    let opcode ← readCode .opcode opcode
    let funct ← readCode .funct funct
    return ⟨name, format, opcode, funct⟩
  | _ => .error .recordExpected

def readCount (text : String) : Except RecordFault Nat :=
  match Text.unsigned32 text with
  | .error _ => .error .countExpected
  | .ok count => .ok count

/-- A line with its number and its fields, at least one of them. -/
structure DefinitionLine where
  line : Nat
  fields : List String
deriving DecidableEq, Repr

/-- Nothing for a blank line and for a comment. -/
def DefinitionLine.ofText? (line : Nat) (text : String) : Option DefinitionLine :=
  match Text.fields text with
  | [] => none
  | first :: rest => if Text.opensComment first then none else some ⟨line, first :: rest⟩

def DefinitionLine.ofLines (lines : List String) : List DefinitionLine :=
  (lines.mapIdx DefinitionLine.ofText?).filterMap id

namespace InstructionSet

/-- Takes one record into a set. -/
def addLine (set : InstructionSet) (line : DefinitionLine) :
    Except DefinitionFault InstructionSet := do
  let d ← (Definition.ofFields line.fields).mapError (.malformed line.line)
  (set.add d).mapError fun taken => .nameTaken taken.name

def ofRecords (lines : List DefinitionLine) : Except DefinitionFault InstructionSet :=
  lines.foldlM addLine empty

/-- Reads the lines that are neither blank nor a comment. -/
def ofDefinitionLines : List DefinitionLine → Except DefinitionFault InstructionSet
  | ⟨line, [count]⟩ :: records => do
    let count ← (readCount count).mapError (.malformed line)
    let set ← ofRecords records
    if set.size = count then return set
    else throw (.malformed line (.countMismatch count set.size))
  | records => ofRecords records

def parse (text : String) : Except DefinitionFault InstructionSet :=
  ofDefinitionLines (DefinitionLine.ofLines (Text.lines text))

end InstructionSet

/-! ## Writing -/

namespace Definition

/-- Format and codes, as they stand in a record and in a table. -/
def codesText (d : Definition) : String :=
  d.format.letter ++ " " ++ Text.hex0x 2 d.opcode.toNat ++ " " ++ Text.hex0x 2 d.funct.toNat

def toText (d : Definition) : String :=
  d.name ++ " " ++ d.codesText ++ "\n"

def render (d : Definition) : String :=
  Text.alignRight 5 d.name ++ " " ++ d.codesText ++ "\n"

end Definition

namespace InstructionSet

def toText (set : InstructionSet) : String :=
  toString set.size ++ "\n" ++ String.join (set.toList.map Definition.toText)

def render (set : InstructionSet) : String :=
  "Instruction table:\n" ++ String.join (set.toList.map Definition.render)

end InstructionSet

end Mips
