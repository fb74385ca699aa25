import Mips.Command.Assemble
import Mips.Json.Encode

/-! # The list command

Prints the listing or the labels of a source file, the instruction set, or the register file as it
is before a run; as text or as JSON, to the standard output or to a file. -/

namespace Mips
set_option autoImplicit false

inductive OutputFormat where
  | text
  | json
deriving DecidableEq, Repr

def OutputFormat.ofName? : String → Option OutputFormat
  | "text" => some .text
  | "json" => some .json
  | _ => none

/-- What is to be listed. -/
inductive Subject where
  | bytecode (source : String) (showSource : Bool)
  | instructions
  | registers
  | labels (source : String)
deriving DecidableEq, Repr

structure ListOptions where
  subject : Subject
  definitions : Option String := none
  base : Address := defaultBase
  format : OutputFormat := .text
  out : Option String := none
deriving DecidableEq, Repr

namespace ListOptions

/-! ## Options -/

/-- The options that stand before or after the subject. -/
def sharedSpecs : List OptionSpec :=
  [{ name := "definitions" }, { name := "base" }, { name := "format" }, { name := "out" }]

/-- The further options of a subject. -/
def subjectSpecs : String → List OptionSpec
  | "bytecode" => [{ name := "show-source", takesValue := false }]
  | _ => []

def subject? (name : String) (arguments : Arguments) : Option Subject :=
  match name, arguments.operands with
  | "bytecode", [source] =>
    (readPath source).map fun source => .bytecode source (arguments.hasFlag "show-source")
  | "instructions", [] => some .instructions
  | "registers", [] => some .registers
  | "labels", [source] => (readPath source).map .labels
  | _, _ => none

/-- The value of an option that stands before or after the subject, the latter going first. Both
have to be readable. -/
def sharedValue? {α : Type} (before after : Arguments) (name : String)
    (read : String → Option α) : Option (Option α) := do
  let outer ← before.value? name read
  let inner ← after.value? name read
  return inner <|> outer

/-- The options, or nothing for a usage error. -/
def parse? (arguments : List String) : Option ListOptions := do
  let before ← Arguments.scan sharedSpecs true arguments
  match before.operands with
  | [] => none
  | name :: rest =>
    let after ← Arguments.scan (sharedSpecs ++ subjectSpecs name) false rest
    if !before.isUnambiguous || !after.isUnambiguous then none
    else
      let subject ← subject? name after
      let definitions ← sharedValue? before after "definitions" readPath
      let base ← sharedValue? before after "base" readAddressArgument
      let format ← sharedValue? before after "format" OutputFormat.ofName?
      let out ← sharedValue? before after "out" readPath
      return ⟨subject, definitions, base.getD defaultBase, format.getD .text, out⟩

/-! ## The run -/

/-- The program of a source file, assembled up to its first fault. -/
def loadProgram (target : Target) (source : String) : Command Program := do
  let lines ← Command.loadLines source
  .ofExcept ((target.assemble lines).mapError .line)

/-- A JSON document ends with a line end. -/
def jsonText (document : Json) : String :=
  document.pretty ++ "\n"

def listingText (listing : Listing) (showSource : Bool) : OutputFormat → String
  | .text => listing.render showSource
  | .json => jsonText listing.toJson

def instructionsText (set : InstructionSet) : OutputFormat → String
  | .text => set.render
  | .json => jsonText set.toJson

def registersText (file : RegisterFile) : OutputFormat → String
  | .text => file.render ++ "\n"
  | .json => jsonText file.toJson

def labelsText (labels : List PlacedLabel) : OutputFormat → String
  | .text => PlacedLabel.renderAll labels
  | .json => jsonText (PlacedLabel.allToJson labels)

/-- The text that is asked for. -/
def text (options : ListOptions) : Command String := do
  let instructions ← Command.loadInstructions options.definitions
  let target : Target := ⟨instructions, options.base⟩
  match options.subject with
  | .bytecode source showSource =>
    let program ← loadProgram target source
    return listingText (program.listing instructions) showSource options.format
  | .instructions => return instructionsText instructions options.format
  | .registers => return registersText (RegisterFile.init options.base) options.format
  | .labels source =>
    let program ← loadProgram target source
    return labelsText program.placedLabels options.format

def command (options : ListOptions) : Command Unit := do
  let text ← options.text
  Command.deliver text.toUTF8 text options.out

def run (options : ListOptions) (files : Files) : Outcome :=
  options.command.run files

end ListOptions

end Mips
