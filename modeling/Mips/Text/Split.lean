import Mips.Text.Blank

/-! # Cutting a text

* `lines`: the lines of a text. A line ends at a line feed, and a carriage return just before the
  line feed belongs to the line end. The text after the last line feed is a line if it has any
  character, and keeps a carriage return at its end.
* `fields`: the maximal runs of characters that are not blank.
* `tokens`: the maximal runs of characters that are neither blank nor a comma.

Each is a fold from the right over the characters, so its value on `c :: cs` is one step away from
its value on `cs`. -/

namespace Mips.Text
set_option autoImplicit false

/-! ## Runs between separators -/

/-- Puts a run in front of the runs after it, unless it is empty. -/
def closeRun (run : List Char) (runs : List (List Char)) : List (List Char) :=
  if run.isEmpty then runs else run :: runs

/-- One character, before a run that may still grow to the left and the runs after that one. -/
def pushRun (isSeparator : Char → Bool) (c : Char) (acc : List Char × List (List Char)) :
    List Char × List (List Char) :=
  if isSeparator c then ([], closeRun acc.1 acc.2) else (c :: acc.1, acc.2)

/-- The maximal runs of characters that are no separators, in order. -/
def runs (isSeparator : Char → Bool) (cs : List Char) : List (List Char) :=
  let acc := cs.foldr (pushRun isSeparator) ([], [])
  closeRun acc.1 acc.2

def isTokenSeparator (c : Char) : Bool :=
  isBlank c || c == ','

def fields (s : String) : List String :=
  (runs isBlank s.toList).map String.ofList

def tokens (s : String) : List String :=
  (runs isTokenSeparator s.toList).map String.ofList

/-! ## Lines -/

/-- The lines of the text read so far, and whether that text starts with a line feed. -/
structure LineScan where
  lines : List (List Char)
  atLineFeed : Bool

/-- Puts a character in front of the first line. -/
def prependToFirst (c : Char) : List (List Char) → List (List Char)
  | [] => [[c]]
  | line :: rest => (c :: line) :: rest

def LineScan.push (c : Char) (scan : LineScan) : LineScan :=
  if c == '\n' then ⟨[] :: scan.lines, true⟩
  else if c == '\r' && scan.atLineFeed then ⟨scan.lines, false⟩
  else ⟨prependToFirst c scan.lines, false⟩

def lineChars (cs : List Char) : List (List Char) :=
  (cs.foldr LineScan.push ⟨[], false⟩).lines

def lines (s : String) : List String :=
  (lineChars s.toList).map String.ofList

end Mips.Text
