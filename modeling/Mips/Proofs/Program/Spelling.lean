import Mathlib.Data.List.Forall2
import Mips.Instruction.Standard
import Mips.Proofs.Operation.Reading
import Mips.Proofs.Program.Reporting
import Mips.Proofs.Source.Spelling

/-! # One program in two spellings

Two programs whose lines differ in separators, comments and the letter case of mnemonics assemble
alike: to the same words and labels, or with faults of the same kinds on the same lines.

* `LineFault.kind`, `Diagnostic.SameKind`: what is wrong with a line, without the tokens that the
  message quotes.
* `SameResult related`: both runs give one value, or both give faults that are related.
* `Target.sameResult_encodeStatement`: one line in two spellings.
* `Symbols.collect_alike`, `Target.encodeAll_alike`: both passes over all lines.
* `Target.assemble_of_sameUpToSpelling`: both ways to assemble. -/

namespace Mips
set_option autoImplicit false

/-! ## Faults of one kind -/

inductive LineFault.Kind where
  | emptyLabel
  | labelTaken
  | unknownMnemonic
  | missingOperand
  | unknownRegister
  | badLiteral
  | undefinedLabel
deriving DecidableEq, Repr

def LineFault.kind : LineFault → LineFault.Kind
  | .emptyLabel => .emptyLabel
  | .labelTaken _ _ => .labelTaken
  | .unknownMnemonic _ => .unknownMnemonic
  | .missingOperand _ _ => .missingOperand
  | .unknownRegister _ => .unknownRegister
  | .badLiteral _ => .badLiteral
  | .undefinedLabel _ => .undefinedLabel

def LineFault.SameKind (a b : LineFault) : Prop :=
  b.kind = a.kind

theorem LineFault.SameKind.refl (fault : LineFault) : fault.SameKind fault := rfl

structure Diagnostic.SameKind (a b : Diagnostic) : Prop where
  slot_eq : b.slot = a.slot
  kind_eq : b.fault.kind = a.fault.kind

theorem Diagnostic.SameKind.refl (diagnostic : Diagnostic) : diagnostic.SameKind diagnostic :=
  ⟨rfl, rfl⟩

/-! ## Two runs -/

/-- Two runs that end with the same value, or with two faults that are related. -/
inductive SameResult {ε α : Type} (related : ε → ε → Prop) : Except ε α → Except ε α → Prop
  | ok (a : α) : SameResult related (.ok a) (.ok a)
  | error {e e' : ε} (h : related e e') : SameResult related (.error e) (.error e')

namespace SameResult
variable {ε δ α β : Type} {related : ε → ε → Prop}

theorem refl (hrefl : ∀ e, related e e) (x : Except ε α) : SameResult related x x := by
  cases x with
  | error e => exact .error (hrefl e)
  | ok a => exact .ok a

theorem bind {x x' : Except ε α} {f f' : α → Except ε β} (hx : SameResult related x x')
    (hf : ∀ a, SameResult related (f a) (f' a)) : SameResult related (x >>= f) (x' >>= f') := by
  cases hx with
  | ok a => exact hf a
  | error h => exact .error h

theorem mapError {x x' : Except ε α} {related' : δ → δ → Prop} {f : ε → δ}
    (hx : SameResult related x x') (hf : ∀ e e', related e e' → related' (f e) (f e')) :
    SameResult related' (x.mapError f) (x'.mapError f) := by
  cases hx with
  | ok a => exact .ok a
  | error h => exact .error (hf _ _ h)

end SameResult

/-! ## One line -/

namespace Operands
variable (mnemonic mnemonic' : String) (tokens : List String) (position : Nat)

theorem sameResult_token :
    SameResult LineFault.SameKind (token ⟨mnemonic, tokens⟩ position)
      (token ⟨mnemonic', tokens⟩ position) := by
  unfold token
  cases tokens[position]? with
  | none => exact .error rfl
  | some token => exact .ok token

theorem sameResult_register :
    SameResult LineFault.SameKind (register ⟨mnemonic, tokens⟩ position)
      (register ⟨mnemonic', tokens⟩ position) :=
  (sameResult_token mnemonic mnemonic' tokens position).bind fun _ => .refl .refl _

theorem sameResult_literal :
    SameResult LineFault.SameKind (literal ⟨mnemonic, tokens⟩ position)
      (literal ⟨mnemonic', tokens⟩ position) :=
  (sameResult_token mnemonic mnemonic' tokens position).bind fun _ => .refl .refl _

theorem sameResult_label (symbols : Symbols) :
    SameResult LineFault.SameKind (label ⟨mnemonic, tokens⟩ symbols position)
      (label ⟨mnemonic', tokens⟩ symbols position) :=
  (sameResult_token mnemonic mnemonic' tokens position).bind fun _ => .refl .refl _

end Operands

/-- The mnemonic is only quoted in faults. -/
theorem Operation.sameResult_resolve (symbols : Symbols) (mnemonic mnemonic' : String)
    (tokens : List String) (shape : Shape) :
    SameResult LineFault.SameKind (resolve symbols ⟨mnemonic, tokens⟩ shape)
      (resolve symbols ⟨mnemonic', tokens⟩ shape) := by
  have hregister := Operands.sameResult_register mnemonic mnemonic' tokens
  have hliteral := Operands.sameResult_literal mnemonic mnemonic' tokens
  have hlabel (position : Nat) :=
    Operands.sameResult_label mnemonic mnemonic' tokens position symbols
  cases shape with
  | jumpRegister => exact (hregister 0).bind fun _ => .ok _
  | shift =>
    exact (hregister 0).bind fun _ => (hregister 1).bind fun _ => (hliteral 2).bind fun _ => .ok _
  | arithmetic =>
    exact (hregister 0).bind fun _ => (hregister 1).bind fun _ => (hregister 2).bind fun _ => .ok _
  | branchEqual =>
    exact (hregister 0).bind fun _ => (hregister 1).bind fun _ => (hlabel 2).bind fun _ => .ok _
  | branchCompare => exact (hregister 0).bind fun _ => (hlabel 1).bind fun _ => .ok _
  | immediate =>
    exact (hregister 0).bind fun _ => (hregister 1).bind fun _ => (hliteral 2).bind fun _ => .ok _
  | jump => exact (hlabel 0).bind fun _ => .ok _

theorem InstructionSet.find?_of_foldCase (set : InstructionSet) {name name' : String}
    (hcase : Text.foldCase name = Text.foldCase name') : set.find? name' = set.find? name := by
  rw [find?, find?, hcase]

namespace Target

theorem sameResult_encodeStatement (target : Target) (symbols : Symbols) {a b : Statement}
    (h : a.Alike b) :
    SameResult Diagnostic.SameKind (target.encodeStatement symbols a)
      (target.encodeStatement symbols b) := by
  obtain ⟨hslot, -, ⟨ha, hb⟩ | ⟨mnemonic, mnemonic', operands, ha, hb, hcase⟩⟩ := h
  · rw [(target.encodeStatement_eq_ok_iff symbols a .zero).mpr (.inl ⟨ha, rfl⟩),
      (target.encodeStatement_eq_ok_iff symbols b .zero).mpr (.inl ⟨hb, rfl⟩)]
    exact .ok _
  · have hinstruction : SameResult LineFault.SameKind
        (target.encodeInstruction symbols a.slot ⟨mnemonic, operands⟩)
        (target.encodeInstruction symbols a.slot ⟨mnemonic', operands⟩) := by
      have hfind := target.instructions.find?_of_foldCase hcase
      simp only [encodeInstruction, hfind]
      cases target.instructions.find? mnemonic with
      | none => exact .error rfl
      | some d =>
        exact (Operation.sameResult_resolve symbols mnemonic mnemonic' operands d.shape).bind
          fun _ => .ok _
    simp only [encodeStatement, ha, hb, hslot]
    exact hinstruction.mapError fun _ _ hkind => ⟨rfl, hkind⟩

end Target

/-! ## The first pass -/

theorem forall₂_mapIdx {α β : Type} {related : α → α → Prop} {related' : β → β → Prop}
    {f : Nat → α → β} {xs xs' : List α} (h : List.Forall₂ related xs xs')
    (hf : ∀ i x x', related x x' → related' (f i x) (f i x')) :
    List.Forall₂ related' (xs.mapIdx f) (xs'.mapIdx f) := by
  induction h generalizing f with
  | nil => exact .nil
  | cons hx _ ih =>
    rw [List.mapIdx_cons, List.mapIdx_cons]
    exact .cons (hf 0 _ _ hx) (ih fun i => hf (i + 1))

theorem Statement.alike_parseLines {lines lines' : List String}
    (h : List.Forall₂ SameUpToSpelling lines lines') :
    List.Forall₂ Alike (parseLines lines) (parseLines lines') :=
  forall₂_mapIdx h fun slot _ _ hline => alike_parse hline slot

namespace Symbols

theorem declareOrNote_alike (acc : Symbols × List Diagnostic) {a b : Statement} (h : a.Alike b) :
    declareOrNote acc b = declareOrNote acc a := by
  simp only [declareOrNote, declare, h.label_eq, h.slot_eq]

/-- The first pass looks at labels and slots only. -/
theorem collect_alike {statements statements' : List Statement}
    (h : List.Forall₂ Statement.Alike statements statements') :
    collect statements' = collect statements := by
  have hfold : ∀ acc, statements'.foldl declareOrNote acc = statements.foldl declareOrNote acc := by
    induction h with
    | nil => exact fun _ => rfl
    | cons hab _ ih =>
      intro acc
      rw [List.foldl_cons, List.foldl_cons, declareOrNote_alike acc hab, ih]
  rw [collect, collect, hfold]

end Symbols

/-! ## The second pass -/

/-- Two lines with one encoding, at one slot and address. -/
structure Slot.SameEncoding (a b : Slot) : Prop where
  slot_eq : b.statement.slot = a.statement.slot
  address_eq : b.address = a.address
  encoding_eq : b.encoding = a.encoding

namespace Target

theorem encodeAll_alike (target : Target) (symbols : Symbols)
    {statements statements' : List Statement}
    (h : List.Forall₂ Statement.Alike statements statements') :
    List.Forall₂ Slot.SameEncoding (target.encodeAll symbols statements).1
        (target.encodeAll symbols statements').1 ∧
      List.Forall₂ Diagnostic.SameKind (target.encodeAll symbols statements).2
        (target.encodeAll symbols statements').2 := by
  induction h with
  | nil => exact ⟨.nil, .nil⟩
  | @cons a b rest rest' hab _ ih =>
    obtain ⟨hslots, hfaults⟩ := ih
    have hresult := target.sameResult_encodeStatement symbols hab
    simp only [encodeAll_cons, encodeSlot]
    generalize target.encodeStatement symbols a = x at hresult
    generalize target.encodeStatement symbols b = y at hresult
    cases hresult with
    | ok encoding => exact ⟨.cons ⟨hab.slot_eq, congrArg (slotAddress target.base) hab.slot_eq, rfl⟩ hslots, hfaults⟩
    | error hkind => exact ⟨hslots, .cons hkind hfaults⟩

end Target

/-! ## Both passes -/

theorem map_eq_map_of_forall₂ {α β : Type} {related : α → α → Prop} {f : α → β}
    {xs xs' : List α} (h : List.Forall₂ related xs xs')
    (hf : ∀ x x', related x x' → f x' = f x) : xs'.map f = xs.map f := by
  induction h with
  | nil => rfl
  | cons hx _ ih => rw [List.map_cons, List.map_cons, ih, hf _ _ hx]

def PlacedWord.withoutSource (placed : PlacedWord) : PlacedWord :=
  { placed with source := "" }

namespace Program
variable {program program' : Program}

theorem placedWords_of_sameEncoding
    (h : List.Forall₂ Slot.SameEncoding program.slots program'.slots) :
    program'.placedWords.map PlacedWord.withoutSource =
      program.placedWords.map PlacedWord.withoutSource := by
  simp only [placedWords, List.map_map]
  apply map_eq_map_of_forall₂ h
  intro a b hab
  simp only [Function.comp_apply, PlacedWord.withoutSource, Slot.placedWord, hab.slot_eq,
    hab.address_eq, hab.encoding_eq]

theorem words_of_sameEncoding (h : List.Forall₂ Slot.SameEncoding program.slots program'.slots) :
    program'.words = program.words := by
  apply map_eq_map_of_forall₂ h
  intro a b hab
  rw [hab.encoding_eq]

end Program

namespace Target

/-- Lines that show the same tokens are in the same spelling up to their separators and comments,
and programs in two spellings assemble alike. -/
theorem assemble_of_sameUpToSpelling :
    (∀ (tokens : List String) (comment comment' line line' : String),
      (∀ token ∈ tokens, Text.opensComment token = false) →
      (comment = "" ∨ Text.opensComment comment = true) →
      (comment' = "" ∨ Text.opensComment comment' = true) →
      Text.Writes comment tokens line → Text.Writes comment' tokens line' →
      Statement.SameUpToSpelling line line') ∧
    ∀ (target : Target) (lines lines' : List String),
      List.Forall₂ Statement.SameUpToSpelling lines lines' →
      (∃ program program', target.assemble lines = .ok program ∧
        target.assemble lines' = .ok program' ∧
        program'.words = program.words ∧
        program'.placedWords.map PlacedWord.withoutSource =
          program.placedWords.map PlacedWord.withoutSource ∧
        program'.symbols = program.symbols) ∨
      ∃ fault fault' faults faults', target.assemble lines = .error fault ∧
        target.assemble lines' = .error fault' ∧
        target.assembleAll lines = .error faults ∧ target.assembleAll lines' = .error faults' ∧
        List.Forall₂ Diagnostic.SameKind faults faults' := by
  refine ⟨fun _ _ _ _ _ => Statement.sameUpToSpelling_of_writes, ?_⟩
  intro target lines lines' h
  have hstatements := Statement.alike_parseLines h
  have hfirst : firstPass lines' = firstPass lines := Symbols.collect_alike hstatements
  obtain ⟨hslots, hlineFaults⟩ :=
    target.encodeAll_alike (firstPass lines).1 hstatements
  have hsecond : target.secondPass lines' =
      target.encodeAll (firstPass lines).1 (Statement.parseLines lines') := by
    rw [secondPass, hfirst]
  have hfaults : List.Forall₂ Diagnostic.SameKind
      ((firstPass lines).2 ++ (target.secondPass lines).2)
      ((firstPass lines').2 ++ (target.secondPass lines').2) := by
    rw [hsecond, hfirst]
    exact List.rel_append (List.forall₂_same.mpr fun fault _ => .refl fault) hlineFaults
  rw [assemble_eq_passes, assemble_eq_passes, assembleAll_eq_passes, assembleAll_eq_passes]
  generalize (firstPass lines).2 ++ (target.secondPass lines).2 = faults at hfaults
  generalize (firstPass lines').2 ++ (target.secondPass lines').2 = faults' at hfaults
  cases hfaults with
  | nil =>
    rw [← hsecond] at hslots
    exact .inl ⟨_, _, rfl, rfl, Program.words_of_sameEncoding hslots,
      Program.placedWords_of_sameEncoding hslots, hfirst ▸ rfl⟩
  | cons hfault hrest => exact .inr ⟨_, _, _, _, rfl, rfl, rfl, rfl, .cons hfault hrest⟩

/-- A label, separators of several kinds, a mnemonic in capitals, and a comment in one spelling. -/
theorem assemble_of_sameUpToSpelling_loop :
    ∃ program program',
      assemble ⟨InstructionSet.standard, 0⟩ ["a:,\tBNE $t0 $t1,, a", " nop # on"] = .ok program ∧
      assemble ⟨InstructionSet.standard, 0⟩ ["a: bne $t0, $t1, a", "nop"] = .ok program' ∧
      program'.words = program.words ∧ program'.symbols = program.symbols := by
  have hspaced : Text.Writes "# on" ["nop"] (" " ++ "nop" ++ (" " ++ "# on")) :=
    .token (by decide) (by decide) (by decide) (.tail (by decide))
  have htight : Text.Writes "" ["nop"] ("" ++ "nop" ++ ("" ++ "")) :=
    .token (by decide) (by decide) (by decide) (.tail (by decide))
  have hnop := assemble_of_sameUpToSpelling.1 ["nop"] "# on" "" " nop # on" "nop" (by decide)
    (by decide) (by decide) hspaced htight
  have hcapitals : Statement.significantTokens "a:,\tBNE $t0 $t1,, a" =
      ["a:", "BNE", "$t0", "$t1", "a"] := by decide
  have hsmall : Statement.significantTokens "a: bne $t0, $t1, a" =
      ["a:", "bne", "$t0", "$t1", "a"] := by decide
  have hbranch : Statement.SameUpToSpelling "a:,\tBNE $t0 $t1,, a" "a: bne $t0, $t1, a" := by
    rw [Statement.SameUpToSpelling, hcapitals, hsmall]
    exact .labelled _ (by decide) (by decide)
  obtain ⟨program, hprogram⟩ : ∃ program, assemble ⟨InstructionSet.standard, 0⟩
      ["a:,\tBNE $t0 $t1,, a", " nop # on"] = .ok program := ⟨_, rfl⟩
  obtain ⟨_, program', h, h', hwords, -, hsymbols⟩ | ⟨_, _, _, _, hfault, -⟩ :=
    assemble_of_sameUpToSpelling.2 ⟨InstructionSet.standard, 0⟩ _ _
      (.cons hbranch (.cons hnop .nil))
  · exact ⟨_, program', h, h', hwords, hsymbols⟩
  · rw [hprogram] at hfault
    cases hfault

end Target

end Mips
