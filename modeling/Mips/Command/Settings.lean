import Mips.Json.Reader
import Mips.Register.File
import Mips.Word.Bytes

/-! # Settings

The settings of the assembler: the base address, the byte order of the output, and how faults are
reported. They are read from a JSON object with the members `base_address`, `endian` and
`error_mode`, each at most once and any of them left out, beside others that are ignored; or from
an array that holds their values in this order, with any number of them left out at its end. -/

namespace Mips
set_option autoImplicit false

/-- Whether assembling stops at the first fault or lists all of them. -/
inductive Reporting where
  | firstFault
  | allFaults
deriving DecidableEq, Repr

namespace Reporting

def name : Reporting → String
  | .firstFault => "fail-fast"
  | .allFaults => "collect-all"

def ofName? : String → Option Reporting
  | "fail-fast" => some .firstFault
  | "collect-all" => some .allFaults
  | _ => none

end Reporting

structure Settings where
  base : Address := defaultBase
  order : ByteOrder := .little
  reporting : Reporting := .firstFault
deriving DecidableEq, Repr

namespace Settings

/-! ## Values of members -/

/-- A 32-bit word, written as a plain digit string. -/
def readAddress : JsonValue → Option Address
  | .number (some n) => if n < 0x100000000 then some (BitVec.ofNat 32 n) else none
  | _ => none

/-- One of several names: a string, or an object with the name as its only key and null. -/
def readName {α : Type} (ofName? : String → Option α) : JsonValue → Option α
  | .string (some name) => ofName? name
  | .object [(some name, .null)] => ofName? name
  | _ => none

def readOrder : JsonValue → Option ByteOrder :=
  readName ByteOrder.ofName?

def readReporting : JsonValue → Option Reporting :=
  readName Reporting.ofName?

/-! ## Objects and arrays -/

/-- The member with a key, or a default if there is none. -/
def readMember {α : Type} (members : List (Option String × JsonValue)) (key : String) (default : α)
    (read : JsonValue → Option α) : Option α :=
  match members.filter (·.1 == some key) with
  | [] => some default
  | [(_, value)] => read value
  | _ => none

/-- Every key has to stand for a text, also one that is ignored. -/
def ofMembers? (members : List (Option String × JsonValue)) : Option Settings := do
  if members.any (·.1.isNone) then none
  else
    let defaults : Settings := {}
    let base ← readMember members "base_address" defaults.base readAddress
    let order ← readMember members "endian" defaults.order readOrder
    let reporting ← readMember members "error_mode" defaults.reporting readReporting
    return ⟨base, order, reporting⟩

def ofItems? : List JsonValue → Option Settings
  | [] => some {}
  | [base] => do
    let base ← readAddress base
    return { base := base }
  | [base, order] => do
    let base ← readAddress base
    let order ← readOrder order
    return { base := base, order := order }
  | [base, order, reporting] => do
    let base ← readAddress base
    let order ← readOrder order
    let reporting ← readReporting reporting
    return ⟨base, order, reporting⟩
  | _ => none

def ofValue? : JsonValue → Option Settings
  | .object members => ofMembers? members
  | .array items => ofItems? items
  | _ => none

def parse? (s : String) : Option Settings :=
  (JsonValue.parse? s).bind ofValue?

end Settings

end Mips
