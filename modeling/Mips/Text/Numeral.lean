import Mips.Text.Blank

/-! # Numerals

Reading of unsigned and signed numerals with a bound.

* `natural radix bound`: an optional plus sign and digits, with a value below the bound.
* `unsigned bound`: the same, hexadecimal after `0x` or `0X` and decimal otherwise.
* `integer64`: a decimal with an optional sign, with a value that fits in 64 bits.

The digits are read from the left, and the first character that cannot be taken decides the fault:
it is no digit, or the value up to it reaches the bound. -/

namespace Mips.Text
set_option autoImplicit false

/-- Why a numeral was refused. -/
inductive NumeralFault where
  | empty
  | invalidDigit
  | tooLarge
deriving DecidableEq, Repr

def NumeralFault.message : NumeralFault → String
  | .empty => "cannot parse integer from empty string"
  | .invalidDigit => "invalid digit found in string"
  | .tooLarge => "number too large to fit in target type"

/-! ## Digits -/

/-- The value of a letter or digit, `a` and `A` being ten. -/
def digitValue? (c : Char) : Option Nat :=
  if '0' ≤ c ∧ c ≤ '9' then some (c.toNat - '0'.toNat)
  else if 'a' ≤ c ∧ c ≤ 'z' then some (c.toNat - 'a'.toNat + 10)
  else if 'A' ≤ c ∧ c ≤ 'Z' then some (c.toNat - 'A'.toNat + 10)
  else none

def digit? (radix : Nat) (c : Char) : Option Nat :=
  (digitValue? c).filter (· < radix)

/-- Appends digits to a value, which has to stay below the bound. -/
def appendDigits (radix bound : Nat) : Nat → List Char → Except NumeralFault Nat
  | value, [] => .ok value
  | value, c :: cs =>
    match digit? radix c with
    | none => .error .invalidDigit
    | some d =>
      if value * radix + d < bound then appendDigits radix bound (value * radix + d) cs
      else .error .tooLarge

/-- At least one digit. -/
def digits (radix bound : Nat) : List Char → Except NumeralFault Nat
  | [] => .error .empty
  | c :: cs => appendDigits radix bound 0 (c :: cs)

/-! ## Numerals with a sign or a radix mark -/

/-- A plus sign alone is refused as no digit, and not as an empty numeral. -/
def natural (radix bound : Nat) : List Char → Except NumeralFault Nat
  | ['+'] => .error .invalidDigit
  | '+' :: cs => digits radix bound cs
  | cs => digits radix bound cs

def unsigned (bound : Nat) : List Char → Except NumeralFault Nat
  | '0' :: 'x' :: cs => natural 16 bound cs
  | '0' :: 'X' :: cs => natural 16 bound cs
  | cs => natural 10 bound cs

/-- A numeral for a 32-bit word. -/
def unsigned32 (s : String) : Except NumeralFault Nat :=
  unsigned 0x100000000 s.toList

/-- A numeral for a 32-bit word, with blank characters around it. -/
def unsigned32Trimmed (s : String) : Except NumeralFault Nat :=
  unsigned 0x100000000 (trimChars s.toList)

def integer64 (s : String) : Option Int :=
  match s.toList with
  | '-' :: cs => (digits 10 0x8000000000000001 cs).toOption.map fun n => -(n : Int)
  | cs => (natural 10 0x8000000000000000 cs).toOption.map fun n => (n : Int)

end Mips.Text
