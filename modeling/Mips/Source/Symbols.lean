import Mips.Source.Diagnostic
import Mips.Source.Statement
import Std.Data.TreeMap

/-! # Symbol tables

The labels of a program in the order of their declaration, each with the slot it stands for, and an
index from names to slots. A name is declared once, and it is not empty. -/

namespace Mips
set_option autoImplicit false

structure Label where
  name : String
  slot : Nat
deriving DecidableEq, Repr

structure Symbols where
  labels : Array Label
  /-- The slot of each name. -/
  index : Std.TreeMap String Nat

namespace Symbols

def empty : Symbols :=
  ⟨#[], ∅⟩

def size (symbols : Symbols) : Nat :=
  symbols.labels.size

def toList (symbols : Symbols) : List Label :=
  symbols.labels.toList

def slotOf? (symbols : Symbols) (name : String) : Option Nat :=
  symbols.index[name]?

/-- The first name declared for a slot. -/
def nameAt? (symbols : Symbols) (slot : Nat) : Option String :=
  (symbols.labels.find? (·.slot == slot)).map Label.name

/-- An empty name is refused before a name that is taken. -/
def insert (symbols : Symbols) (name : String) (slot : Nat) : Except LineFault Symbols :=
  if name.isEmpty then .error .emptyLabel
  else
    match symbols.slotOf? name with
    | some first => .error (.labelTaken name first)
    | none => .ok ⟨symbols.labels.push ⟨name, slot⟩, symbols.index.insert name slot⟩

/-! ## Tables of lines -/

/-- Takes in the labels of lines, the first of which stands at a slot. Only the first token of a
line is looked at, and the first declaration that is refused ends it. -/
def declareLines (symbols : Symbols) (slot : Nat) : List String → Except Diagnostic Symbols
  | [] => .ok symbols
  | line :: rest =>
    match Statement.declaredLabel? line with
    | none => symbols.declareLines (slot + 1) rest
    | some name =>
      match symbols.insert name slot with
      | .error fault => .error ⟨slot, fault⟩
      | .ok symbols => symbols.declareLines (slot + 1) rest

def ofLines (lines : List String) : Except Diagnostic Symbols :=
  empty.declareLines 0 lines

/-! ## Tables of programs -/

/-- The table after the label of a statement, if it has one. -/
def declare (symbols : Symbols) (statement : Statement) : Except Diagnostic Symbols :=
  match statement.label with
  | none => .ok symbols
  | some name => (symbols.insert name statement.slot).mapError (⟨statement.slot, ·⟩)

/-- Stops at the first declaration that is refused. -/
def ofStatements (statements : List Statement) : Except Diagnostic Symbols :=
  statements.foldlM declare empty

/-- The table after a declaration, which is left out if it is refused, and the faults so far with
the latest first. -/
def declareOrNote (acc : Symbols × List Diagnostic) (statement : Statement) :
    Symbols × List Diagnostic :=
  match acc.1.declare statement with
  | .ok symbols => (symbols, acc.2)
  | .error diagnostic => (acc.1, diagnostic :: acc.2)

/-- Leaves out the declarations that are refused, and lists their faults in order. -/
def collect (statements : List Statement) : Symbols × List Diagnostic :=
  let acc := statements.foldl declareOrNote (empty, [])
  (acc.1, acc.2.reverse)

end Symbols

end Mips
