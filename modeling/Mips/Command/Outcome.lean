import Mips.Command.Files
import Mips.Instruction.SetText
import Mips.Source.Diagnostic

/-! # Outcomes of commands

The outcome of a run is the exit status, the two standard streams and the files after it. A fault
that ends a run is reported on the standard error stream, with its cause below it if it has one. -/

namespace Mips
set_option autoImplicit false

inductive CommandFault where
  | settingsUnreadable (path : String) (fault : FileFault)
  | settingsMalformed (path : String)
  | unreadable (path : String) (fault : FileFault)
  | unwritable (fault : FileFault)
  | definition (fault : DefinitionFault)
  | line (diagnostic : Diagnostic)
  /-- Lines whose faults were reported one by one. -/
  | lines (count : Nat)
deriving DecidableEq, Repr

namespace CommandFault

def message : CommandFault → String
  | .settingsUnreadable path _ => s!"reading config {path}"
  | .settingsMalformed path => s!"parsing config {path}"
  | .unreadable path fault => s!"could not read {path}: {fault.message}"
  | .unwritable fault => fault.message
  | .definition fault => fault.message
  | .line diagnostic => diagnostic.message
  | .lines count => s!"{count} error(s), no bytecode written"

def cause? : CommandFault → Option String
  | .settingsUnreadable _ fault => some fault.message
  | .unreadable _ fault => some fault.message
  | _ => none

/-- The fault on the standard error stream. -/
def text (fault : CommandFault) : String :=
  match fault.cause? with
  | none => "Error: " ++ fault.message ++ "\n"
  | some cause => "Error: " ++ fault.message ++ "\n\nCaused by:\n    " ++ cause ++ "\n"

end CommandFault

structure Outcome where
  exit : Nat
  stdout : String
  stderr : String
  files : Files

end Mips
