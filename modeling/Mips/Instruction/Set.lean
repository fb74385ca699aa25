import Mips.Instruction.Definition
import Mips.Text.Case
import Std.Data.TreeMap

/-! # Instruction sets

An instruction set is a list of definitions, in the order in which they were added, with names that
differ by more than letter case. An index from the folded names to the positions serves `find?`.

* `add`: a definition at the end, refused if its name is taken.
* `find?`: the definition with a name.
* `findCodes?`: the first definition for a pair of codes. -/

namespace Mips
set_option autoImplicit false

structure InstructionSet where
  definitions : Array Definition
  /-- The position of each definition under its folded name. -/
  index : Std.TreeMap String Nat

/-- A name that is already taken, as it was spelled the second time. -/
structure NameTaken where
  name : String
deriving DecidableEq, Repr

namespace InstructionSet

def empty : InstructionSet :=
  ⟨#[], ∅⟩

def size (set : InstructionSet) : Nat :=
  set.definitions.size

def toList (set : InstructionSet) : List Definition :=
  set.definitions.toList

/-- The index follows from the definitions, so two sets are compared by these. -/
instance : BEq InstructionSet :=
  ⟨fun a b => a.definitions == b.definitions⟩

def add (set : InstructionSet) (d : Definition) : Except NameTaken InstructionSet :=
  if Text.foldCase d.name ∈ set.index then .error ⟨d.name⟩
  else .ok ⟨set.definitions.push d, set.index.insert (Text.foldCase d.name) set.size⟩

theorem toList_of_add_eq_ok {set result : InstructionSet} {d : Definition}
    (h : set.add d = .ok result) : result.toList = set.toList ++ [d] := by
  unfold add at h
  split at h
  · exact absurd h (by simp)
  · have hresult := Except.ok.inj h
    rw [← hresult]
    exact Array.toList_push

def ofList (definitions : List Definition) : Except NameTaken InstructionSet :=
  definitions.foldlM add empty

def find? (set : InstructionSet) (name : String) : Option Definition :=
  set.index[Text.foldCase name]?.bind fun position => set.definitions[position]?

def findCodes? (set : InstructionSet) (opcode funct : Byte) : Option Definition :=
  set.definitions.find? (·.hasCodes opcode funct)

end InstructionSet

end Mips
