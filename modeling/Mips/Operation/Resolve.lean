import Mips.Instruction.Definition
import Mips.Register.Name
import Mips.Source.Symbols

/-! # Operations

An operation is an instruction with its operands read: registers as numbers, literals as integers
and labels as slots. `Operation.resolve` reads the operands from left to right and stops at the
first one that is missing or cannot be read. Operands past those of the shape are not looked at. -/

namespace Mips
set_option autoImplicit false

inductive Operation where
  | jumpRegister (target : Register)
  | shift (rd rt : Register) (amount : Int)
  | arithmetic (rd rs rt : Register)
  | branchEqual (rs rt : Register) (target : Nat)
  | branchCompare (rs : Register) (target : Nat)
  | immediate (rt rs : Register) (value : Int)
  | jump (target : Nat)
deriving DecidableEq, Repr

/-! ## Operands -/

/-- The operand tokens of an instruction and the mnemonic they follow. -/
structure Operands where
  mnemonic : String
  tokens : List String
deriving DecidableEq, Repr

namespace Operands

def token (operands : Operands) (position : Nat) : Except LineFault String :=
  match operands.tokens[position]? with
  | some token => .ok token
  | none => .error (.missingOperand operands.mnemonic position)

def register (operands : Operands) (position : Nat) : Except LineFault Register := do
  let token ← operands.token position
  match Register.ofName? token with
  | some r => .ok r
  | none => .error (.unknownRegister token)

def literal (operands : Operands) (position : Nat) : Except LineFault Int := do
  let token ← operands.token position
  match Text.integer64 token with
  | some value => .ok value
  | none => .error (.badLiteral token)

def label (operands : Operands) (symbols : Symbols) (position : Nat) : Except LineFault Nat := do
  let token ← operands.token position
  match symbols.slotOf? token with
  | some slot => .ok slot
  | none => .error (.undefinedLabel token)

end Operands

/-! ## Reading the operands of a shape -/

def Operation.resolve (symbols : Symbols) (operands : Operands) :
    Shape → Except LineFault Operation
  | .jumpRegister => return .jumpRegister (← operands.register 0)
  | .shift =>
    return .shift (← operands.register 0) (← operands.register 1) (← operands.literal 2)
  | .arithmetic =>
    return .arithmetic (← operands.register 0) (← operands.register 1) (← operands.register 2)
  | .branchEqual =>
    return .branchEqual (← operands.register 0) (← operands.register 1)
      (← operands.label symbols 2)
  | .branchCompare =>
    return .branchCompare (← operands.register 0) (← operands.label symbols 1)
  | .immediate =>
    return .immediate (← operands.register 0) (← operands.register 1) (← operands.literal 2)
  | .jump => return .jump (← operands.label symbols 0)

end Mips
