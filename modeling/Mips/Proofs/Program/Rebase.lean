import Mips.Proofs.Operation.Packing
import Mips.Proofs.Program.Reporting

/-! # One program at two base addresses

The base address decides where the words of a program are loaded and where its jumps lead. Nothing
else depends on it: not whether the program assembles, nor its faults, its labels or its other words.

* `Encoding.Rebased shape`: what two encodings of one line have in common, by the shape of its
  instruction.
* `Operation.rebased_encode`, `Target.encodeStatement_rebase`: one operation and one line at two base
  addresses.
* `Target.assembleAll_rebase`: all lines at two base addresses. -/

namespace Mips
set_option autoImplicit false

/-! ## One operation -/

/-- Two encodings of a line for two base addresses. They are equal if the line is no jump. The words
of a jump have the same bits above the target, and no other field than the target can be too narrow
for one address and not for the other. -/
structure Encoding.Rebased (shape : Option Shape) (encoding encoding' : Encoding) : Prop where
  eq_of_ne_jump : shape ≠ some .jump → encoding' = encoding
  word_of_jump : shape = some .jump →
    encoding'.word.extractLsb' 22 10 = encoding.word.extractLsb' 22 10
  truncated_of_jump : shape = some .jump → ∀ field ≠ .jumpTarget,
    (encoding'.truncated = some field ↔ encoding.truncated = some field)

theorem Encoding.Rebased.refl (shape : Option Shape) (encoding : Encoding) :
    encoding.Rebased shape encoding :=
  ⟨fun _ => rfl, fun _ => rfl, fun _ _ _ => Iff.rfl⟩

theorem Operation.rebased_encode (d : Definition) (base base' : Address) (slot : Nat)
    (operation : Operation) :
    (operation.encode d base slot).Rebased (some operation.shape)
      (operation.encode d base' slot) := by
  cases operation with
  | jump target =>
    refine ⟨fun h => absurd rfl h, fun _ => ?_, fun _ field hfield => ?_⟩
    · simp only [encode, Fields.extractLsb'_ofJumpFields]
    · simp only [truncated_encode_eq_some_iff, Overflows, hfield, false_and]
  | _ => exact .refl _ _

namespace Target

/-! ## One line -/

section Rebase
variable (instructions : InstructionSet) (base base' : Address)

theorem encodeStatement_rebase (symbols : Symbols) (statement : Statement) :
    (∃ diagnostic,
      encodeStatement ⟨instructions, base⟩ symbols statement = .error diagnostic ∧
      encodeStatement ⟨instructions, base'⟩ symbols statement = .error diagnostic) ∨
    ∃ encoding encoding',
      encodeStatement ⟨instructions, base⟩ symbols statement = .ok encoding ∧
      encodeStatement ⟨instructions, base'⟩ symbols statement = .ok encoding' ∧
      encoding.Rebased (statement.shape? instructions) encoding' := by
  unfold encodeStatement Statement.shape?
  cases statement.body with
  | instruction mnemonic tokens =>
    simp only [encodeInstruction]
    cases instructions.find? mnemonic with
    | none => exact .inl ⟨_, rfl, rfl⟩
    | some d =>
      -- The operands are read before the base address is used.
      cases hresolve : Operation.resolve symbols ⟨mnemonic, tokens⟩ d.shape with
      | error fault =>
        simp only [hresolve]
        exact .inl ⟨_, rfl, rfl⟩
      | ok operation =>
        obtain ⟨hshape, -⟩ := Operation.readFrom_of_resolve hresolve
        simp only [hresolve]
        refine .inr ⟨_, _, rfl, rfl, ?_⟩
        rw [Option.map_some, ← hshape]
        exact operation.rebased_encode d base base' statement.slot
  | blank => exact .inr ⟨_, _, rfl, rfl, .refl _ _⟩
  | comment => exact .inr ⟨_, _, rfl, rfl, .refl _ _⟩
  | labelOnly => exact .inr ⟨_, _, rfl, rfl, .refl _ _⟩
  | nop => exact .inr ⟨_, _, rfl, rfl, .refl _ _⟩

theorem slotFault?_rebase (symbols : Symbols) :
    slotFault? ⟨instructions, base'⟩ symbols = slotFault? ⟨instructions, base⟩ symbols := by
  funext statement
  apply Option.ext
  intro diagnostic
  rw [slotFault?_eq_some_iff, slotFault?_eq_some_iff]
  obtain ⟨fault, h, h'⟩ | ⟨encoding, encoding', h, h', -⟩ :=
    encodeStatement_rebase instructions base base' symbols statement
  · rw [h, h']
  · rw [h, h']
    simp

/-! ## All lines -/

theorem faults_secondPass_rebase (lines : List String) :
    (secondPass ⟨instructions, base'⟩ lines).2 = (secondPass ⟨instructions, base⟩ lines).2 := by
  rw [secondPass, secondPass, faults_encodeAll, faults_encodeAll, slotFault?_rebase]

end Rebase

end Target

def PlacedWord.encoding (placed : PlacedWord) : Encoding :=
  ⟨placed.word, placed.truncated⟩

namespace Target

/-- A program at two base addresses: it has the same faults, or the same labels and statements. Its
words are then loaded as far apart as the base addresses are, and only those of jumps differ, in the
bits of the target. -/
theorem assembleAll_rebase (instructions : InstructionSet) (base base' : Address)
    (lines : List String) :
    (∃ faults, assembleAll ⟨instructions, base⟩ lines = .error faults ∧
      assembleAll ⟨instructions, base'⟩ lines = .error faults) ∨
    ∃ program program',
      assembleAll ⟨instructions, base⟩ lines = .ok program ∧
      assembleAll ⟨instructions, base'⟩ lines = .ok program' ∧
      program'.symbols = program.symbols ∧
      program.statements = Statement.parseLines lines ∧
      program'.statements = program.statements ∧
      ∀ (slot : Nat) (line : String), lines[slot]? = some line →
        ∃ placed placed', program.placedWords[slot]? = some placed ∧
          program'.placedWords[slot]? = some placed' ∧
          placed'.address - placed.address = base' - base ∧
          placed.encoding.Rebased ((Statement.parse slot line).shape? instructions)
            placed'.encoding := by
  have hfaults := faults_secondPass_rebase instructions base base' lines
  have hall := assembleAll_eq_passes ⟨instructions, base⟩ lines
  have hall' := assembleAll_eq_passes ⟨instructions, base'⟩ lines
  rw [hfaults] at hall'
  by_cases hnone : (firstPass lines).2 ++ (secondPass ⟨instructions, base⟩ lines).2 = []
  · right
    rw [if_pos hnone] at hall hall'
    have h := (assembleAll_eq_ok_iff _ _ _).mp hall
    have h' := (assembleAll_eq_ok_iff _ _ _).mp hall'
    refine ⟨_, _, hall, hall', rfl, h.statements_eq, h'.statements_eq.trans h.statements_eq.symm, ?_⟩
    intro slot line hline
    obtain ⟨first, hfirst, hget⟩ := h.placedWord hline
    obtain ⟨second, hsecond, hget'⟩ := h'.placedWord hline
    refine ⟨_, _, hget, hget', ?_, ?_⟩
    · exact slotAddress_sub_slotAddress base' base slot
    · obtain ⟨fault, hfault, -⟩ | ⟨encoding, encoding', hencoding, hencoding', hrebased⟩ :=
        encodeStatement_rebase instructions base base' (firstPass lines).1 (Statement.parse slot line)
      · rw [hfirst] at hfault
        cases hfault
      · rw [hfirst] at hencoding
        rw [hsecond] at hencoding'
        cases hencoding
        cases hencoding'
        exact hrebased
  · left
    rw [if_neg hnone] at hall hall'
    exact ⟨_, hall, hall'⟩

end Target

end Mips
