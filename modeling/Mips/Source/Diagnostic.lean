/-! # Diagnostics

What can be wrong with a line of a program. Lines are counted from zero in the data and from one
in the messages. -/

namespace Mips
set_option autoImplicit false

inductive LineFault where
  | emptyLabel
  | labelTaken (label : String) (first : Nat)
  | unknownMnemonic (mnemonic : String)
  | missingOperand (mnemonic : String) (position : Nat)
  | unknownRegister (token : String)
  | badLiteral (token : String)
  | undefinedLabel (label : String)
deriving DecidableEq, Repr

def LineFault.message : LineFault → String
  | .emptyLabel => "empty label name"
  | .labelTaken label first => s!"label `{label}` already defined on line {first + 1}"
  | .unknownMnemonic mnemonic => s!"unknown mnemonic `{mnemonic}`"
  | .missingOperand mnemonic position => s!"`{mnemonic}` is missing operand {position + 1}"
  | .unknownRegister token => s!"unknown register `{token}`"
  | .badLiteral token => s!"`{token}` is not a decimal integer"
  | .undefinedLabel label => s!"undefined label `{label}`"

/-- A fault and the line it was found on. -/
structure Diagnostic where
  slot : Nat
  fault : LineFault
deriving DecidableEq, Repr

def Diagnostic.message (diagnostic : Diagnostic) : String :=
  s!"line {diagnostic.slot + 1}: {diagnostic.fault.message}"

end Mips
