import Mips.Register.Name
import Mips.Text.Hex

/-! # The register file

The values of the general and special registers, and the base address of the program.

* `Register.resolve`: the general register that a text stands for, or the fault if there is none.
* `read`, `write`, `readName`, `writeName`: access by number or name.
* `jump`: moves the program counter by a number of instructions. A target below the base address
  puts the counter at the base and is reported.
* `render`: the file as a table. -/

namespace Mips
set_option autoImplicit false

inductive RegisterFault where
  | unknownName (name : String)
  | outOfRange (index : Nat)
  | jumpBelowBase (offset : Int) (base : Address)
deriving DecidableEq, Repr

def RegisterFault.message : RegisterFault → String
  | .unknownName name => s!"unknown register `{name}`"
  | .outOfRange index => s!"register index {index} out of range"
  | .jumpBelowBase offset base =>
    s!"invalid jump by {offset} instructions, pc clamped to {Text.hex0x 8 base.toNat}"

/-- The general register that a text stands for. The special ones have no number. -/
def Register.resolve (name : String) : Except RegisterFault Register :=
  match ofName? name with
  | some r => .ok r
  | none => .error (.unknownName name)

structure RegisterFile where
  general : Vector Word 32
  pc : Address
  hi : Word
  lo : Word
  base : Address
deriving DecidableEq, Repr

/-- The address a program is loaded at unless another one is asked for. -/
def defaultBase : Address := 0x00400000

namespace RegisterFile

/-- All registers are zero and the program counter is at the base. -/
def init (base : Address) : RegisterFile where
  general := Vector.replicate 32 0
  pc := base
  hi := 0
  lo := 0
  base := base

/-! ## General registers by number -/

def read (file : RegisterFile) (index : Nat) : Except RegisterFault Word :=
  if h : index < 32 then .ok (file.general.get ⟨index, h⟩) else .error (.outOfRange index)

def write (file : RegisterFile) (index : Nat) (value : Word) : Except RegisterFault RegisterFile :=
  if h : index < 32 then .ok { file with general := file.general.set index value h }
  else .error (.outOfRange index)

/-! ## Registers by name -/

def readSpecial (file : RegisterFile) : SpecialRegister → Word
  | .pc => file.pc
  | .hi => file.hi
  | .lo => file.lo

def writeSpecial (file : RegisterFile) (value : Word) : SpecialRegister → RegisterFile
  | .pc => { file with pc := value }
  | .hi => { file with hi := value }
  | .lo => { file with lo := value }

def readName (file : RegisterFile) (name : String) : Except RegisterFault Word :=
  match SpecialRegister.ofName? name with
  | some special => .ok (file.readSpecial special)
  | none => do
    let r ← Register.resolve name
    file.read r.toNat

def writeName (file : RegisterFile) (name : String) (value : Word) :
    Except RegisterFault RegisterFile :=
  match SpecialRegister.ofName? name with
  | some special => .ok (file.writeSpecial value special)
  | none => do
    let r ← Register.resolve name
    file.write r.toNat value

/-! ## The program counter -/

def addressOf (file : RegisterFile) (slot : Nat) : Address :=
  slotAddress file.base slot

def setPc (file : RegisterFile) (address : Address) : RegisterFile :=
  { file with pc := address }

def setPcSlot (file : RegisterFile) (slot : Nat) : RegisterFile :=
  file.setPc (file.addressOf slot)

def advance (file : RegisterFile) : RegisterFile :=
  file.setPc (file.pc + 4)

/-- The file after a jump, and the fault if the jump was refused. A target past the last address
wraps around. -/
def jump (file : RegisterFile) (offset : Int) : RegisterFile × Option RegisterFault :=
  let target : Int := file.pc.toNat + 4 * offset
  if target < file.base.toNat then
    (file.setPc file.base, some (.jumpBelowBase offset file.base))
  else (file.setPc (BitVec.ofInt 32 target), none)

/-! ## Rendering -/

def renderGeneral (file : RegisterFile) (r : Register) : String :=
  Text.alignRight 2 (toString r.toNat) ++ ": " ++ Text.alignRight 5 r.name ++ ": " ++
    Text.hex0x 8 (file.general.get r.toFin).toNat ++ "\n"

def renderSpecial (file : RegisterFile) (special : SpecialRegister) : String :=
  "    " ++ Text.alignRight 5 special.name ++ ": " ++
    Text.hex0x 8 (file.readSpecial special).toNat

/-- A line for each register; the last one has no line end. -/
def render (file : RegisterFile) : String :=
  "Register table:\n" ++ String.join (Register.all.map file.renderGeneral) ++
    file.renderSpecial .pc ++ "\n" ++ file.renderSpecial .hi ++ "\n" ++ file.renderSpecial .lo

end RegisterFile

end Mips
