import Mips.Text.Numeral

/-! # Reading JSON

A reader takes a value from the front of a text and returns it with the text after it. The grammar
is the strict one: no comments, no commas at an end, no leading zeros and no control characters in
strings.

A string may escape half of a surrogate pair. Such a string is well formed but stands for no text,
and it is read as `none`. Of a number only the value of a plain digit string is kept. -/

namespace Mips
set_option autoImplicit false

inductive JsonValue where
  | null
  | bool (b : Bool)
  /-- The value, if the number has no sign, fraction or exponent. -/
  | number (natural : Option Nat)
  /-- The text, if there is one. -/
  | string (text : Option String)
  | array (items : List JsonValue)
  | object (members : List (Option String × JsonValue))
deriving Repr

namespace JsonValue

/-- A value and the text after it. -/
abbrev Reader (α : Type) := List Char → Option (α × List Char)

def isSpace (c : Char) : Bool :=
  c == ' ' || c == '\t' || c == '\n' || c == '\r'

def skipSpace (cs : List Char) : List Char :=
  cs.dropWhile isSpace

/-! ## Strings -/

/-- A character of a string as it is written: itself, or a code unit in an escape. -/
inductive Piece where
  | char (c : Char)
  | unit (code : Nat)
deriving DecidableEq, Repr

def hexValue? (a b c d : Char) : Option Nat := do
  let a ← Text.digit? 16 a
  let b ← Text.digit? 16 b
  let c ← Text.digit? 16 c
  let d ← Text.digit? 16 d
  return ((a * 16 + b) * 16 + c) * 16 + d

/-- The character of an escape with one letter. -/
def shortEscape? : Char → Option Char
  | '"' => some '"'
  | '\\' => some '\\'
  | '/' => some '/'
  | 'b' => some '\x08'
  | 'f' => some '\x0c'
  | 'n' => some '\n'
  | 'r' => some '\r'
  | 't' => some '\t'
  | _ => none

/-- The pieces of a string up to the quote that ends it. -/
def readPieces : Reader (List Piece)
  | [] => none
  | '"' :: cs => some ([], cs)
  | '\\' :: 'u' :: a :: b :: c :: d :: cs => do
    let code ← hexValue? a b c d
    let (pieces, rest) ← readPieces cs
    return (.unit code :: pieces, rest)
  | '\\' :: c :: cs => do
    let c ← shortEscape? c
    let (pieces, rest) ← readPieces cs
    return (.char c :: pieces, rest)
  | c :: cs => do
    if c == '\\' || c.toNat < 0x20 then none
    else
      let (pieces, rest) ← readPieces cs
      return (.char c :: pieces, rest)

def isHighSurrogate (code : Nat) : Bool :=
  0xD800 ≤ code && code < 0xDC00

def isLowSurrogate (code : Nat) : Bool :=
  0xDC00 ≤ code && code < 0xE000

/-- The characters of a string, unless a surrogate has no partner. -/
def decodePieces : List Piece → Option (List Char)
  | [] => some []
  | .char c :: pieces => (decodePieces pieces).map (c :: ·)
  | .unit high :: .unit low :: pieces =>
    if isHighSurrogate high then
      if isLowSurrogate low then
        (decodePieces pieces).map
          (Char.ofNat (0x10000 + (high - 0xD800) * 0x400 + (low - 0xDC00)) :: ·)
      else none
    else if isLowSurrogate high then none
    else (decodePieces (.unit low :: pieces)).map (Char.ofNat high :: ·)
  | .unit code :: pieces =>
    if isHighSurrogate code || isLowSurrogate code then none
    else (decodePieces pieces).map (Char.ofNat code :: ·)

/-- A string after its first quote. -/
def readText : Reader (Option String) := fun cs => do
  let (pieces, rest) ← readPieces cs
  return ((decodePieces pieces).map String.ofList, rest)

/-! ## Numbers -/

/-- At least one digit. -/
def readDigits : Reader (List Char) := fun cs =>
  let ds := cs.takeWhile Char.isDigit
  if ds.isEmpty then none else some (ds, cs.dropWhile Char.isDigit)

/-- A zero alone, or digits that do not start with a zero. -/
def readWhole : Reader (List Char)
  | '0' :: cs => some (['0'], cs)
  | cs => readDigits cs

/-- Whether there is a fraction. -/
def readFraction : Reader Bool
  | '.' :: cs => (readDigits cs).map fun r => (true, r.2)
  | cs => some (false, cs)

def dropSign : List Char → List Char
  | '+' :: cs => cs
  | '-' :: cs => cs
  | cs => cs

/-- Whether there is an exponent. -/
def readExponent : Reader Bool
  | 'e' :: cs => (readDigits (dropSign cs)).map fun r => (true, r.2)
  | 'E' :: cs => (readDigits (dropSign cs)).map fun r => (true, r.2)
  | cs => some (false, cs)

def digitsValue (ds : List Char) : Nat :=
  ds.foldl (fun value c => value * 10 + (c.toNat - '0'.toNat)) 0

def readUnsigned : Reader (Option Nat) := fun cs => do
  let (ds, cs) ← readWhole cs
  let (fraction, cs) ← readFraction cs
  let (exponent, cs) ← readExponent cs
  return (if fraction || exponent then none else some (digitsValue ds), cs)

/-- A number with a sign has no value that is kept. -/
def readNumber : Reader (Option Nat)
  | '-' :: cs => (readUnsigned cs).map fun r => (none, r.2)
  | cs => readUnsigned cs

/-! ## Values -/

/-- The items up to a closing bracket; the fuel bounds their number. -/
def readItems (readItem : Reader JsonValue) : Nat → Reader (List JsonValue)
  | 0, _ => none
  | fuel + 1, cs => do
    let (item, cs) ← readItem cs
    match skipSpace cs with
    | ',' :: cs =>
      let (items, cs) ← readItems readItem fuel cs
      return (item :: items, cs)
    | ']' :: cs => return ([item], cs)
    | _ => none

/-- A key, a colon and a value. -/
def readMember (readItem : Reader JsonValue) : Reader (Option String × JsonValue) := fun cs =>
  match skipSpace cs with
  | '"' :: cs => do
    let (key, cs) ← readText cs
    match skipSpace cs with
    | ':' :: cs =>
      let (item, cs) ← readItem cs
      return ((key, item), cs)
    | _ => none
  | _ => none

/-- The members up to a closing brace; the fuel bounds their number. -/
def readMembers (readItem : Reader JsonValue) : Nat → Reader (List (Option String × JsonValue))
  | 0, _ => none
  | fuel + 1, cs => do
    let (member, cs) ← readMember readItem cs
    match skipSpace cs with
    | ',' :: cs =>
      let (members, cs) ← readMembers readItem fuel cs
      return (member :: members, cs)
    | '\x7d' :: cs => return ([member], cs)
    | _ => none

/-- A value after white space. Fuel above the length of the text is enough: it bounds the depth of
nesting and the number of items on each level, and both spend characters. -/
def readValue : Nat → Reader JsonValue
  | 0, _ => none
  | fuel + 1, cs =>
    match skipSpace cs with
    | '"' :: cs => (readText cs).map fun r => (.string r.1, r.2)
    | '[' :: cs =>
      match skipSpace cs with
      | ']' :: cs => some (.array [], cs)
      | cs =>
        (readItems (fun cs => readValue fuel cs) fuel cs).map fun r =>
          (.array r.1, r.2)
    | '\x7b' :: cs =>
      match skipSpace cs with
      | '\x7d' :: cs => some (.object [], cs)
      | cs =>
        (readMembers (fun cs => readValue fuel cs) fuel cs).map fun r =>
          (.object r.1, r.2)
    | 'n' :: 'u' :: 'l' :: 'l' :: cs => some (.null, cs)
    | 't' :: 'r' :: 'u' :: 'e' :: cs => some (.bool true, cs)
    | 'f' :: 'a' :: 'l' :: 's' :: 'e' :: cs => some (.bool false, cs)
    | cs => (readNumber cs).map fun r => (.number r.1, r.2)

/-- A text that holds one value and white space around it. -/
def parse? (s : String) : Option JsonValue := do
  let cs := s.toList
  let (value, rest) ← readValue (cs.length + 1) cs
  if (skipSpace rest).isEmpty then some value else none

end JsonValue

end Mips
