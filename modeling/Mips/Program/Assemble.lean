import Mips.Program.Basic

/-! # Assembling

A program is assembled in two passes, since a branch may name a label declared further down: the
first collects the labels of all lines, the second encodes each line.

* `assemble`: stops at the first fault, one of the first pass before any of the second.
* `assembleAll`: goes through both passes and lists all faults, those of the first pass first. A
  label whose declaration is refused keeps its first meaning in the second pass. -/

namespace Mips
set_option autoImplicit false

namespace Target

/-- A statement with its address and its encoding. -/
def encodeSlot (target : Target) (symbols : Symbols) (statement : Statement) :
    Except Diagnostic Slot :=
  (target.encodeStatement symbols statement).map
    (⟨statement, slotAddress target.base statement.slot, ·⟩)

def assemble (target : Target) (lines : List String) : Except Diagnostic Program := do
  let statements := Statement.parseLines lines
  let symbols ← Symbols.ofStatements statements
  let slots ← statements.mapM (target.encodeSlot symbols)
  return ⟨target.base, slots, symbols⟩

/-- The slots that could be encoded and the faults of the others, each in order. -/
def encodeAll (target : Target) (symbols : Symbols) (statements : List Statement) :
    List Slot × List Diagnostic :=
  statements.foldr
    (fun statement acc =>
      match target.encodeSlot symbols statement with
      | .ok slot => (slot :: acc.1, acc.2)
      | .error diagnostic => (acc.1, diagnostic :: acc.2))
    ([], [])

def assembleAll (target : Target) (lines : List String) : Except (List Diagnostic) Program :=
  let statements := Statement.parseLines lines
  let (symbols, labelFaults) := Symbols.collect statements
  let (slots, lineFaults) := target.encodeAll symbols statements
  let faults := labelFaults ++ lineFaults
  if faults.isEmpty then .ok ⟨target.base, slots, symbols⟩ else .error faults

end Target

end Mips
