import Mips.Command.Outcome

/-! # The steps of a command

A command reads files, prints on the standard streams and writes files, one step after the other,
and each step may depend on the answers to those before it. It ends with a result or with a fault.

* `Console`: the files, and what was printed so far.
* `Command.exec`: the steps of a command on a console.
* `Command.run`: the outcome of a command on a store of files. A fault is reported last. -/

namespace Mips
set_option autoImplicit false

inductive Stream where
  | output
  | error
deriving DecidableEq, Repr

inductive Command (α : Type) where
  | done (result : α)
  | fail (fault : CommandFault)
  | read (path : String) (next : Except FileFault ByteArray → Command α)
  | print (stream : Stream) (text : String) (next : Unit → Command α)
  | write (path : String) (content : ByteArray) (next : Except FileFault Unit → Command α)

namespace Command

protected def bind {α β : Type} : Command α → (α → Command β) → Command β
  | .done result, f => f result
  | .fail fault, _ => .fail fault
  | .read path next, f => .read path fun answer => (next answer).bind f
  | .print stream text next, f => .print stream text fun answer => (next answer).bind f
  | .write path content next, f => .write path content fun answer => (next answer).bind f

instance : Monad Command where
  pure := .done
  bind := .bind

/-! ## Single steps -/

def ofExcept {α : Type} : Except CommandFault α → Command α
  | .ok result => .done result
  | .error fault => .fail fault

def ofOption {α : Type} (fault : CommandFault) : Option α → Command α
  | some result => .done result
  | none => .fail fault

/-- The text of a file. -/
def readText (path : String) (unreadable : FileFault → CommandFault) : Command String :=
  .read path fun answer => ofExcept ((answer >>= decodeText).mapError unreadable)

def printText (stream : Stream) (text : String) : Command Unit :=
  .print stream text .done

def writeFile (path : String) (content : ByteArray) : Command Unit :=
  .write path content fun answer => ofExcept (answer.mapError .unwritable)

/-- Writes a content to the output file, or prints a text if there is none. -/
def deliver (content : ByteArray) (text : String) : Option String → Command Unit
  | none => printText .output text
  | some path => writeFile path content

end Command

/-! ## Running -/

structure Console where
  files : Files
  stdout : String := ""
  stderr : String := ""

namespace Console

def print (console : Console) (text : String) : Stream → Console
  | .output => { console with stdout := console.stdout ++ text }
  | .error => { console with stderr := console.stderr ++ text }

/-- A write that is refused changes nothing. -/
def write (console : Console) (path : String) (content : ByteArray) :
    Except FileFault Unit × Console :=
  match console.files.write path content with
  | .ok written => (.ok (), { console with files := written })
  | .error fault => (.error fault, console)

end Console

namespace Command

def exec {α : Type} : Command α → Console → Except CommandFault α × Console
  | .done result, console => (.ok result, console)
  | .fail fault, console => (.error fault, console)
  | .read path next, console => (next (console.files.read path)).exec console
  | .print stream text next, console => (next ()).exec (console.print text stream)
  | .write path content next, console =>
    (next (console.write path content).1).exec (console.write path content).2

end Command

/-- What is left when a command has ended. -/
def Outcome.ofExec : Except CommandFault Unit × Console → Outcome
  | (.ok _, console) => ⟨0, console.stdout, console.stderr, console.files⟩
  | (.error fault, console) => ⟨1, console.stdout, console.stderr ++ fault.text, console.files⟩

def Command.run (command : Command Unit) (files : Files) : Outcome :=
  .ofExec (command.exec ⟨files, "", ""⟩)

end Mips
