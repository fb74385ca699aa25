import Mips.Command.List

/-! # The command line

The first argument names the command, `assemble` or `list`, and the others are its own. The steps of
the command are taken one after the other, on the real files and streams. -/

namespace Mips.Main
set_option autoImplicit false

/-- The fault that stands for an error of the file system. Some codes come with their sign
turned. -/
def faultOf : IO.Error → FileFault
  | .inappropriateType _ code _ =>
    if code = 20 ∨ code = 0 - 20 then .notDirectory else .isDirectory
  | .invalidArgument _ code _ =>
    if code = 36 ∨ code = 0 - 36 then .nameTooLong else .notFound
  | .permissionDenied _ _ _ => .denied
  | _ => .notFound

/-- The answer to a step, or the fault that stands in for it. -/
def answer {α : Type} (step : IO α) : IO (Except FileFault α) := do
  match ← step.toBaseIO with
  | .ok result => return .ok result
  | .error error => return .error (faultOf error)

def print (text : String) : Stream → IO Unit
  | .output => IO.print text
  | .error => IO.eprint text

/-- Takes the steps of a command, and reports the fault that it ends with. -/
def perform : Command Unit → IO UInt32
  | .done _ => return 0
  | .fail fault => do
    IO.eprint fault.text
    return 1
  | .read path next => do
    let content ← answer (IO.FS.readBinFile path)
    perform (next content)
  | .print stream text next => do
    print text stream
    perform (next ())
  | .write path content next => do
    let written ← answer (IO.FS.writeBinFile path content)
    perform (next written)

def usage : IO UInt32 := do
  IO.eprintln ("usage: assemble -i FILE [-o FILE] [-d FILE] [--base N] [--endian little|big]" ++
    " [--keep-going] [--config FILE]")
  IO.eprintln ("       list [--definitions FILE] [--base N] [--format text|json] [--out FILE]" ++
    " bytecode FILE [--show-source] | instructions | registers | labels FILE")
  return 2

def run : List String → IO UInt32
  | "assemble" :: arguments =>
    match AssembleOptions.parse? arguments with
    | none => usage
    | some options => perform options.command
  | "list" :: arguments =>
    match ListOptions.parse? arguments with
    | none => usage
    | some options => perform options.command
  | _ => usage

end Mips.Main

def main (arguments : List String) : IO UInt32 :=
  Mips.Main.run arguments
