import Mips.Text.Numeral
import Mips.Word.Layout

/-! # Registers and their names

A general register is a number below 32. It is written by its name or by a dollar sign and its
number in decimal; the three special registers have names only. -/

namespace Mips
set_option autoImplicit false

/-- A general register, by its number. -/
abbrev Register := BitVec 5

namespace Register

def names : Vector String 32 :=
  #v["$zero", "$at", "$v0", "$v1", "$a0", "$a1", "$a2", "$a3",
     "$t0", "$t1", "$t2", "$t3", "$t4", "$t5", "$t6", "$t7",
     "$s0", "$s1", "$s2", "$s3", "$s4", "$s5", "$s6", "$s7",
     "$t8", "$t9", "$k0", "$k1", "$gp", "$sp", "$fp", "$ra"]

def name (r : Register) : String :=
  names.get r.toFin

/-- The register that holds the return address. -/
def returnAddress : Register := 31

def ofIndex? (index : Nat) : Option Register :=
  if index < 32 then some (BitVec.ofNat 5 index) else none

def nameAt? (index : Nat) : Option String :=
  (ofIndex? index).map name

/-- All registers by increasing number. -/
def all : List Register :=
  (List.range 32).map (BitVec.ofNat 5)

/-- A dollar sign and a decimal number, with no other sign and any number of leading zeros. -/
def ofNumber? (s : String) : Option Register :=
  match s.toList with
  | '$' :: cs => (Text.digits 10 32 cs).toOption.bind ofIndex?
  | _ => none

def ofName? (s : String) : Option Register :=
  (all.find? fun r => r.name == s) <|> ofNumber? s

end Register

inductive SpecialRegister where
  | pc
  | hi
  | lo
deriving DecidableEq, Repr

namespace SpecialRegister

def name : SpecialRegister → String
  | .pc => "$pc"
  | .hi => "$hi"
  | .lo => "$lo"

def ofName? : String → Option SpecialRegister
  | "$pc" => some .pc
  | "$hi" => some .hi
  | "$lo" => some .lo
  | _ => none

end SpecialRegister

end Mips
