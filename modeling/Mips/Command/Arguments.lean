import Mips.Text.Blank

/-! # Command-line arguments

Arguments are scanned from left to right. An option is `--name`, or a dash and one letter. Its
value is the rest of the same argument, after an equals sign that a letter may do without, or else
the next argument, unless that looks like an option itself. After two dashes alone all arguments
are operands.

Anything else is a usage error, for which the scan returns `none`: an unknown option, an option
without its value, a value given to a flag. -/

namespace Mips
set_option autoImplicit false

structure OptionSpec where
  name : String
  letter : Option Char := none
  takesValue : Bool := true
deriving DecidableEq, Repr

/-- The options in order, a flag with an empty value, and the arguments that are no options. -/
structure Arguments where
  options : List (String × String)
  operands : List String
deriving DecidableEq, Repr

namespace Arguments

/-- How an argument is to be taken. -/
inductive Form where
  | terminator
  | long (name : String) (value : Option String)
  | short (letter : Char) (attached : List Char)
  | operand
deriving DecidableEq, Repr

/-- The characters before the first equals sign, and those after it if there is one. -/
def splitAtEquals (cs : List Char) : List Char × Option (List Char) :=
  match cs.dropWhile (· ≠ '=') with
  | [] => (cs, none)
  | _ :: value => (cs.takeWhile (· ≠ '='), some value)

def Form.of (argument : String) : Form :=
  match argument.toList with
  | ['-', '-'] => .terminator
  | '-' :: '-' :: cs =>
    let (name, value) := splitAtEquals cs
    .long (String.ofList name) (value.map String.ofList)
  | '-' :: letter :: cs => .short letter cs
  | _ => .operand

/-- An option may have an argument as its value if it does not look like an option. -/
def canBeValue (argument : String) : Bool :=
  Form.of argument == .operand

/-- The value in the same argument as the letter of an option. -/
def attachedValue : List Char → Option String
  | [] => none
  | '=' :: cs => some (String.ofList cs)
  | cs => some (String.ofList cs)

def addOption (name value : String) (arguments : Arguments) : Arguments :=
  { arguments with options := (name, value) :: arguments.options }

def addOperand (operand : String) (arguments : Arguments) : Arguments :=
  { arguments with operands := operand :: arguments.operands }

/-- Scans arguments. With `stopAtOperand` the first operand ends the scan, and it stands with all
that follows it among the operands; two dashes alone are then refused, since no operand may follow
them. -/
def scan (specs : List OptionSpec) (stopAtOperand : Bool) : List String → Option Arguments
  | [] => some ⟨[], []⟩
  | argument :: rest =>
    /- The option under a specification, with the value found in its own argument. -/
    let take (spec : OptionSpec) (attached : Option String) : Option Arguments :=
      match spec.takesValue, attached with
      | true, some value => (scan specs stopAtOperand rest).map (addOption spec.name value)
      | true, none =>
        match rest with
        | value :: rest =>
          if canBeValue value then
            (scan specs stopAtOperand rest).map (addOption spec.name value)
          else none
        | [] => none
      | false, none => (scan specs stopAtOperand rest).map (addOption spec.name "")
      | false, some _ => none
    match Form.of argument with
    | .terminator => if stopAtOperand then none else some ⟨[], rest⟩
    | .long name value =>
      (specs.find? (·.name == name)).bind fun spec => take spec value
    | .short letter attached =>
      (specs.find? (·.letter == some letter)).bind fun spec => take spec (attachedValue attached)
    | .operand =>
      if stopAtOperand then some ⟨[], argument :: rest⟩
      else (scan specs stopAtOperand rest).map (addOperand argument)

/-! ## Values of options -/

/-- Whether no option is given twice. -/
def isUnambiguous (arguments : Arguments) : Bool :=
  decide (arguments.options.map Prod.fst).Nodup

def hasFlag (arguments : Arguments) (name : String) : Bool :=
  arguments.options.any (·.1 == name)

/-- The value of an option, read by a function that may refuse it. An option that is not given has
no value, which is no error. -/
def value? {α : Type} (arguments : Arguments) (name : String) (read : String → Option α) :
    Option (Option α) :=
  match arguments.options.find? (·.1 == name) with
  | none => some none
  | some (_, text) => (read text).map some

end Arguments

/-- A path is not empty. -/
def readPath (text : String) : Option String :=
  if text.isEmpty then none else some text

end Mips
