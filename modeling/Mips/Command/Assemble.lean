import Mips.Command.Arguments
import Mips.Command.Settings
import Mips.Command.Steps
import Mips.Instruction.Standard
import Mips.Program.Assemble

/-! # The assemble command

Reads a source file and delivers its program, as bytes to a file or as a table to the standard
output. Options go before the settings file, which goes before the defaults. Operands that were cut
are warned about. -/

namespace Mips
set_option autoImplicit false

structure AssembleOptions where
  input : String
  output : Option String := none
  definitions : Option String := none
  base : Option Address := none
  order : Option ByteOrder := none
  keepGoing : Bool := false
  config : Option String := none
deriving DecidableEq, Repr

/-! ## Steps that commands share -/

/-- An address on the command line, in decimal or hexadecimal. -/
def readAddressArgument (text : String) : Option Address :=
  (Text.unsigned32Trimmed text).toOption.map (BitVec.ofNat 32)

namespace Command

/-- The instruction set of a definition file, or the built-in one. -/
def loadInstructions : Option String → Command InstructionSet
  | none => return .standard
  | some path => do
    let text ← readText path (.unreadable path)
    ofExcept ((InstructionSet.parse text).mapError .definition)

def loadLines (path : String) : Command (List String) := do
  let text ← readText path (.unreadable path)
  return Text.lines text

end Command

namespace AssembleOptions

/-! ## Options -/

def specs : List OptionSpec :=
  [{ name := "input", letter := some 'i' }, { name := "output", letter := some 'o' },
   { name := "definitions", letter := some 'd' }, { name := "base" }, { name := "endian" },
   { name := "keep-going", takesValue := false }, { name := "config" }]

/-- The options, or nothing for a usage error. -/
def parse? (arguments : List String) : Option AssembleOptions := do
  let arguments ← Arguments.scan specs false arguments
  if !arguments.isUnambiguous || !arguments.operands.isEmpty then none
  else
    let input ← (← arguments.value? "input" readPath)
    let output ← arguments.value? "output" readPath
    let definitions ← arguments.value? "definitions" readPath
    let base ← arguments.value? "base" readAddressArgument
    let order ← arguments.value? "endian" ByteOrder.ofName?
    let config ← arguments.value? "config" readPath
    return ⟨input, output, definitions, base, order, arguments.hasFlag "keep-going", config⟩

/-! ## Settings -/

def loadSettings : Option String → Command Settings
  | none => return {}
  | some path => do
    let text ← Command.readText path (.settingsUnreadable path)
    .ofOption (.settingsMalformed path) (Settings.parse? text)

/-- The settings with the options in their place. -/
def override (options : AssembleOptions) (settings : Settings) : Settings where
  base := options.base.getD settings.base
  order := options.order.getD settings.order
  reporting := if options.keepGoing then .allFaults else settings.reporting

/-! ## The run -/

/-- Assembles with the reporting of the settings. -/
def assemble (target : Target) (lines : List String) : Reporting → Command Program
  | .firstFault => .ofExcept ((target.assemble lines).mapError .line)
  | .allFaults =>
    match target.assembleAll lines with
    | .ok program => return program
    | .error diagnostics => do
      diagnostics.forM fun diagnostic =>
        Command.printText .error ("error: " ++ diagnostic.message ++ "\n")
      .fail (.lines diagnostics.length)

def warning (slot : Slot) : String :=
  match slot.encoding.truncated with
  | none => ""
  | some field =>
    s!"warning: line {slot.statement.slot + 1}: operand truncated (FieldOverflow({field.name}))\n"

/-- Settings are read first, then the definitions, then the source. -/
def command (options : AssembleOptions) : Command Unit := do
  let settings := options.override (← loadSettings options.config)
  let instructions ← Command.loadInstructions options.definitions
  let lines ← Command.loadLines options.input
  let program ← assemble ⟨instructions, settings.base⟩ lines settings.reporting
  program.truncatedSlots.forM fun slot => Command.printText .error (warning slot)
  Command.deliver (program.bytes settings.order).toByteArray program.render options.output

def run (options : AssembleOptions) (files : Files) : Outcome :=
  options.command.run files

end AssembleOptions

end Mips
