import Mips.Text.Case
import Mips.Text.Split

/-! # Statements

Each line of a program is one statement: an optional label, then nothing, a `nop` or an
instruction with its operands, then an optional comment. The line is cut into tokens first. A
token that starts with a number sign opens a comment, and the first token is a label if it ends in
a colon. -/

namespace Mips
set_option autoImplicit false

/-- What a line asks for, its label apart. -/
inductive Statement.Body where
  | blank
  | comment
  | labelOnly
  | nop
  | instruction (mnemonic : String) (operands : List String)
deriving DecidableEq, Repr

structure Statement where
  /-- The number of the line, counted from zero. -/
  slot : Nat
  text : String
  label : Option String
  body : Statement.Body
deriving DecidableEq, Repr

namespace Statement

/-- The token without the one colon at its end, if it ends in a colon. -/
def labelOf? (token : String) : Option String :=
  match token.toList.reverse with
  | ':' :: name => some (String.ofList name.reverse)
  | _ => none

/-- The tokens before a comment. -/
def beforeComment (tokens : List String) : List String :=
  tokens.takeWhile fun token => !Text.opensComment token

/-- The body of a line with a label, or with a first token that is no comment. -/
def bodyOf (tokens : List String) : Body :=
  match beforeComment tokens with
  | [] => .labelOnly
  | mnemonic :: operands =>
    if Text.foldCase mnemonic = "nop" then .nop else .instruction mnemonic operands

/-- Label and body of a line. -/
def ofTokens : List String → Option String × Body
  | [] => (none, .blank)
  | first :: rest =>
    if Text.opensComment first then (none, .comment)
    else
      match labelOf? first with
      | some label => (some label, bodyOf rest)
      | none => (none, bodyOf (first :: rest))

def parse (slot : Nat) (text : String) : Statement :=
  let parts := ofTokens (Text.tokens text)
  ⟨slot, text, parts.1, parts.2⟩

/-- The label that a line declares, which its first token alone decides. -/
def declaredLabel? (text : String) : Option String :=
  match Text.tokens text with
  | [] => none
  | first :: _ => if Text.opensComment first then none else labelOf? first

/-- The statements of a program, one for each line. -/
def parseLines (lines : List String) : List Statement :=
  lines.mapIdx parse

/-- Whether the statement takes a slot without asking for an instruction. -/
def isFiller (statement : Statement) : Bool :=
  match statement.body with
  | .instruction _ _ => false
  | _ => true

end Statement

end Mips
