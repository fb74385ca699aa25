import Mips.Text.Hex

/-! # JSON documents and their text

A document is printed with an indent of two blanks for each level, one item or member on a line,
and a blank after the colon of a member. Characters outside ASCII are printed as they are. -/

namespace Mips
set_option autoImplicit false

inductive Json where
  | null
  | integer (n : Int)
  | string (s : String)
  | array (items : List Json)
  | object (members : List (String × Json))
deriving Repr

namespace Json

/-! ## Strings -/

/-- Quote, backslash and control characters are written as escapes. -/
def escapeChar (c : Char) : List Char :=
  match c with
  | '"' => ['\\', '"']
  | '\\' => ['\\', '\\']
  | '\x08' => ['\\', 'b']
  | '\t' => ['\\', 't']
  | '\n' => ['\\', 'n']
  | '\x0c' => ['\\', 'f']
  | '\r' => ['\\', 'r']
  | c => if c.toNat < 0x20 then '\\' :: 'u' :: Text.hexChars 4 c.toNat else [c]

def quote (s : String) : String :=
  "\"" ++ String.ofList (s.toList.flatMap escapeChar) ++ "\""

/-! ## Layout -/

def indent (depth : Nat) : String :=
  String.ofList (List.replicate (2 * depth) ' ')

/-- Lines between two brackets, or the brackets alone if there is no line. -/
def bracket (opening closing : String) (depth : Nat) (lines : List String) : String :=
  if lines.isEmpty then opening ++ closing
  else
    opening ++ "\n" ++ ",\n".intercalate (lines.map (indent (depth + 1) ++ ·)) ++ "\n" ++
      indent depth ++ closing

mutual

/-- The text of a document whose first line is already indented. -/
def prettyAt (depth : Nat) : Json → String
  | .null => "null"
  | .integer n => toString n
  | .string s => quote s
  | .array items => bracket "[" "]" depth (prettyItems (depth + 1) items)
  | .object members => bracket "\x7b" "\x7d" depth (prettyMembers (depth + 1) members)

def prettyItems (depth : Nat) : List Json → List String
  | [] => []
  | item :: items => prettyAt depth item :: prettyItems depth items

def prettyMembers (depth : Nat) : List (String × Json) → List String
  | [] => []
  | (key, value) :: members =>
    (quote key ++ ": " ++ prettyAt depth value) :: prettyMembers depth members

end

def pretty (document : Json) : String :=
  prettyAt 0 document

end Json

end Mips
