/-! # Hexadecimal and aligned text

Hexadecimal digits with a fixed width, and texts padded to a width counted in characters. -/

namespace Mips.Text
set_option autoImplicit false

/-- The lowest `width` hexadecimal digits of a number, highest first, in lower case. -/
def hexChars : Nat → Nat → List Char
  | 0, _ => []
  | width + 1, n => hexChars width (n / 16) ++ [Nat.digitChar (n % 16)]

theorem length_hexChars (width n : Nat) : (hexChars width n).length = width := by
  induction width generalizing n with
  | zero => rfl
  | succ width ih => simp [hexChars, ih]

def hex (width n : Nat) : String :=
  String.ofList (hexChars width n)

/-- The same after `0x`. -/
def hex0x (width n : Nat) : String :=
  "0x" ++ hex width n

/-- As many hexadecimal digits as the number has, after `0x`. -/
def shortHex0x (n : Nat) : String :=
  "0x" ++ String.ofList (Nat.toDigits 16 n)

/-! ## Alignment -/

def alignRight (width : Nat) (s : String) : String :=
  String.ofList (s.toList.leftpad width ' ')

def alignLeft (width : Nat) (s : String) : String :=
  String.ofList (s.toList.rightpad width ' ')

end Mips.Text
