import Mips.Instruction.Standard
import Mips.Proofs.Operation.Reading

/-! # Operands that cannot be read

A line whose mnemonic has a definition is encoded exactly if each operand of the shape stands at its
position and can be read. Where several cannot, the first of them decides the fault.

* `OperandKind`, `Shape.operandKinds`: what the tokens of a shape have to be, position by position.
* `Operands.HoldsAt`, `Operands.FaultAt`: an operand that can be read, and what is wrong with one
  that cannot.
* `Operands.firstFault?`: the fault of the first operand that has one. It is the fault of the
  operation (`Operation.fault?_resolve`).
* `Target.encodeStatement_fault_position`: the same for a line, which also says that nothing after
  the operands of the shape is looked at. -/

namespace Mips
set_option autoImplicit false

/-! ## Kinds of operands -/

inductive OperandKind where
  | register
  | literal
  | label
deriving DecidableEq, Repr

namespace OperandKind

/-- Whether a token can be read as an operand of the kind. -/
def accepts (symbols : Symbols) (token : String) : OperandKind → Bool
  | .register => (Register.ofName? token).isSome
  | .literal => (Text.integer64 token).isSome
  | .label => (symbols.slotOf? token).isSome

/-- What is wrong with a token that cannot. -/
def fault (token : String) : OperandKind → LineFault
  | .register => .unknownRegister token
  | .literal => .badLiteral token
  | .label => .undefinedLabel token

end OperandKind

/-- The kinds of the operands of a shape, in the order of their positions. -/
def Shape.operandKinds : Shape → List OperandKind
  | .jumpRegister => [.register]
  | .shift => [.register, .register, .literal]
  | .arithmetic => [.register, .register, .register]
  | .branchEqual => [.register, .register, .label]
  | .branchCompare => [.register, .label]
  | .immediate => [.register, .register, .literal]
  | .jump => [.label]

namespace Operands
variable (operands : Operands) (symbols : Symbols) (position : Nat) (kind : OperandKind)

/-- There is an operand of a kind at a position. -/
def HoldsAt : Prop :=
  ∃ token, operands.tokens[position]? = some token ∧ kind.accepts symbols token = true

/-- What is wrong with the operand at a position: there is none, or it is not of the kind. -/
inductive FaultAt : LineFault → Prop
  | missing (h : operands.tokens.length ≤ position) :
      FaultAt (.missingOperand operands.mnemonic position)
  | refused {token : String} (htoken : operands.tokens[position]? = some token)
      (h : kind.accepts symbols token = false) : FaultAt (kind.fault token)

/-- The same as a value. -/
def faultAt? : Option LineFault :=
  match operands.tokens[position]? with
  | none => some (.missingOperand operands.mnemonic position)
  | some token => if kind.accepts symbols token then none else some (kind.fault token)

theorem faultAt?_eq_some_iff (fault : LineFault) :
    operands.faultAt? symbols position kind = some fault ↔
      operands.FaultAt symbols position kind fault := by
  unfold faultAt?
  constructor
  · intro h
    split at h
    · next hnone =>
      cases h
      exact .missing (List.getElem?_eq_none_iff.mp hnone)
    · next token htoken =>
      split at h
      · cases h
      · next hrefused =>
        cases h
        exact .refused htoken (Bool.not_eq_true _ ▸ hrefused)
  · intro h
    cases h with
    | missing hlength => rw [List.getElem?_eq_none_iff.mpr hlength]
    | refused htoken hrefused => simp [htoken, hrefused]

theorem faultAt?_eq_none_iff :
    operands.faultAt? symbols position kind = none ↔ operands.HoldsAt symbols position kind := by
  unfold faultAt? HoldsAt
  cases operands.tokens[position]? with
  | none => simp
  | some token => simp

end Operands

/-! ## The fault of a result -/

/-- The fault of a result that is one. -/
def fault? {ε α : Type} : Except ε α → Option ε
  | .ok _ => none
  | .error e => some e

section Fault
variable {ε δ α β : Type}

theorem fault?_eq_some_iff (x : Except ε α) (e : ε) : fault? x = some e ↔ x = .error e := by
  cases x <;> simp [fault?]

theorem fault?_eq_none_iff (x : Except ε α) : fault? x = none ↔ ∃ a, x = .ok a := by
  cases x <;> simp [fault?]

theorem fault?_map (x : Except ε α) (f : α → β) : fault? (x.map f) = fault? x := by
  cases x <;> rfl

theorem fault?_mapError (x : Except ε α) (f : ε → δ) :
    fault? (x.mapError f) = (fault? x).map f := by
  cases x <;> rfl

/-- Where the second step fails alike on all values, the first fault of the two counts. -/
theorem fault?_bind {x : Except ε α} {f : α → Except ε β} {rest : Option ε}
    (h : ∀ a, fault? (f a) = rest) : fault? (x >>= f) = (fault? x).or rest := by
  cases x with
  | error e => rfl
  | ok a => exact h a

end Fault

/-! ## All operands -/

namespace Operands

/-- An operand of any kind is a token first, and then what the token can be read as. -/
theorem fault?_operand {α : Type} (operands : Operands) (symbols : Symbols) (position : Nat)
    (kind : OperandKind) {read : String → Except LineFault α}
    (hread : ∀ token, fault? (read token) =
      if kind.accepts symbols token then none else some (kind.fault token)) :
    fault? (operands.token position >>= read) = operands.faultAt? symbols position kind := by
  unfold token faultAt?
  cases operands.tokens[position]? with
  | none => rfl
  | some token => exact hread token

theorem fault?_register (operands : Operands) (symbols : Symbols) (position : Nat) :
    fault? (operands.register position) = operands.faultAt? symbols position .register := by
  apply operands.fault?_operand
  intro token
  cases h : Register.ofName? token <;> simp [OperandKind.accepts, h] <;> rfl

theorem fault?_literal (operands : Operands) (symbols : Symbols) (position : Nat) :
    fault? (operands.literal position) = operands.faultAt? symbols position .literal := by
  apply operands.fault?_operand
  intro token
  cases h : Text.integer64 token <;> simp [OperandKind.accepts, h] <;> rfl

theorem fault?_label (operands : Operands) (symbols : Symbols) (position : Nat) :
    fault? (operands.label symbols position) = operands.faultAt? symbols position .label := by
  apply operands.fault?_operand
  intro token
  cases h : symbols.slotOf? token <;> simp [OperandKind.accepts, h] <;> rfl

/-- The fault of the first operand that has one, for kinds from a position on. -/
def firstFault? (operands : Operands) (symbols : Symbols) :
    Nat → List OperandKind → Option LineFault
  | _, [] => none
  | position, kind :: kinds =>
    (operands.faultAt? symbols position kind).or (operands.firstFault? symbols (position + 1) kinds)

theorem firstFault?_eq_none_iff (operands : Operands) (symbols : Symbols) (start : Nat)
    (kinds : List OperandKind) :
    operands.firstFault? symbols start kinds = none ↔
      ∀ i kind, kinds[i]? = some kind → operands.HoldsAt symbols (start + i) kind := by
  induction kinds generalizing start with
  | nil => simp [firstFault?]
  | cons first kinds ih =>
    rw [firstFault?, Option.or_eq_none_iff, faultAt?_eq_none_iff, ih]
    constructor
    · intro h i kind hkind
      cases i with
      | zero =>
        cases hkind
        exact h.1
      | succ i =>
        have hrest := h.2 i kind hkind
        rwa [Nat.add_right_comm] at hrest
    · intro h
      refine ⟨h 0 first rfl, ?_⟩
      intro i kind hkind
      rw [Nat.add_right_comm]
      exact h (i + 1) kind hkind

theorem firstFault?_eq_some_iff (operands : Operands) (symbols : Symbols) (start : Nat)
    (kinds : List OperandKind) (fault : LineFault) :
    operands.firstFault? symbols start kinds = some fault ↔
      ∃ i kind, kinds[i]? = some kind ∧ operands.FaultAt symbols (start + i) kind fault ∧
        ∀ j < i, ∀ other, kinds[j]? = some other →
          operands.HoldsAt symbols (start + j) other := by
  induction kinds generalizing start with
  | nil => simp [firstFault?]
  | cons first kinds ih =>
    rw [firstFault?, Option.or_eq_some_iff, faultAt?_eq_some_iff, faultAt?_eq_none_iff, ih]
    constructor
    · rintro (hfirst | ⟨hfirst, i, kind, hkind, hfault, hbefore⟩)
      · exact ⟨0, first, rfl, hfirst, fun j hj => absurd hj (Nat.not_lt_zero j)⟩
      · rw [Nat.add_right_comm] at hfault
        refine ⟨i + 1, kind, hkind, hfault, ?_⟩
        intro j hj other hother
        cases j with
        | zero =>
          cases hother
          exact hfirst
        | succ j =>
          have hrest := hbefore j (by omega) other hother
          rwa [Nat.add_right_comm] at hrest
    · rintro ⟨i, kind, hkind, hfault, hbefore⟩
      cases i with
      | zero =>
        cases hkind
        exact .inl hfault
      | succ i =>
        refine .inr ⟨hbefore 0 (by omega) first rfl, i, kind, hkind, ?_, ?_⟩
        · rw [Nat.add_right_comm]
          exact hfault
        · intro j hj other hother
          rw [Nat.add_right_comm]
          exact hbefore (j + 1) (by omega) other hother

end Operands

namespace Operation

theorem fault?_resolve (symbols : Symbols) (operands : Operands) (shape : Shape) :
    fault? (resolve symbols operands shape) =
      operands.firstFault? symbols 0 shape.operandKinds := by
  cases shape <;>
    simp only [Shape.operandKinds, Operands.firstFault?, ← Operands.fault?_register,
      ← Operands.fault?_literal, ← Operands.fault?_label]
  case jumpRegister => exact fault?_bind fun _ => rfl
  case shift => exact fault?_bind fun _ => fault?_bind fun _ => fault?_bind fun _ => rfl
  case arithmetic => exact fault?_bind fun _ => fault?_bind fun _ => fault?_bind fun _ => rfl
  case branchEqual => exact fault?_bind fun _ => fault?_bind fun _ => fault?_bind fun _ => rfl
  case branchCompare => exact fault?_bind fun _ => fault?_bind fun _ => rfl
  case immediate => exact fault?_bind fun _ => fault?_bind fun _ => fault?_bind fun _ => rfl
  case jump => exact fault?_bind fun _ => rfl

/-- Only the tokens at the positions of the shape are looked at. -/
theorem resolve_of_take_eq (symbols : Symbols) (shape : Shape) {operands others : Operands}
    (hmnemonic : others.mnemonic = operands.mnemonic)
    (h : others.tokens.take shape.operandKinds.length =
      operands.tokens.take shape.operandKinds.length) :
    resolve symbols others shape = resolve symbols operands shape := by
  have htoken : ∀ position < shape.operandKinds.length,
      others.token position = operands.token position := by
    intro position hposition
    have hget := congrArg (fun list : List String => list[position]?) h
    simp only [List.getElem?_take_of_lt hposition] at hget
    simp only [Operands.token, hget, hmnemonic]
  cases shape <;>
    simp (disch := decide) only [resolve, Operands.register, Operands.literal, Operands.label,
      htoken]

end Operation

/-! ## Lines -/

namespace Operands

/-- Only the mnemonic itself can be unknown, and not an operand. -/
theorem FaultAt.ne_unknownMnemonic {operands : Operands} {symbols : Symbols} {position : Nat}
    {kind : OperandKind} {fault : LineFault} (h : operands.FaultAt symbols position kind fault)
    (mnemonic : String) : fault ≠ .unknownMnemonic mnemonic := by
  intro heq
  cases h with
  | missing => cases heq
  | refused => cases kind <;> cases heq

end Operands

namespace Target
variable (target : Target) (symbols : Symbols)

theorem encodeStatement_instruction {statement : Statement} {operands : Operands}
    (hbody : statement.body = .instruction operands.mnemonic operands.tokens) :
    target.encodeStatement symbols statement =
      (target.encodeInstruction symbols statement.slot operands).mapError
        (⟨statement.slot, ·⟩) := by
  simp only [encodeStatement, hbody]

theorem encodeInstruction_of_find?_eq_none (slot : Nat) {operands : Operands}
    (hfind : target.instructions.find? operands.mnemonic = none) :
    target.encodeInstruction symbols slot operands =
      .error (.unknownMnemonic operands.mnemonic) := by
  simp only [encodeInstruction, hfind]

theorem encodeInstruction_of_find?_eq_some (slot : Nat) {operands : Operands} {d : Definition}
    (hfind : target.instructions.find? operands.mnemonic = some d) :
    target.encodeInstruction symbols slot operands =
      (Operation.resolve symbols operands d.shape).map (·.encode d target.base slot) := by
  simp only [encodeInstruction, hfind]
  cases Operation.resolve symbols operands d.shape <;> rfl

theorem fault?_encodeStatement {statement : Statement} {operands : Operands}
    (hbody : statement.body = .instruction operands.mnemonic operands.tokens) {d : Definition}
    (hfind : target.instructions.find? operands.mnemonic = some d) :
    fault? (target.encodeStatement symbols statement) =
      (operands.firstFault? symbols 0 d.shape.operandKinds).map (⟨statement.slot, ·⟩) := by
  rw [target.encodeStatement_instruction symbols hbody, fault?_mapError,
    target.encodeInstruction_of_find?_eq_some symbols _ hfind, fault?_map,
    Operation.fault?_resolve]

theorem encodeStatement_eq_error_iff {statement : Statement} {operands : Operands}
    (hbody : statement.body = .instruction operands.mnemonic operands.tokens) {d : Definition}
    (hfind : target.instructions.find? operands.mnemonic = some d) (diagnostic : Diagnostic) :
    target.encodeStatement symbols statement = .error diagnostic ↔
      ∃ position kind fault, diagnostic = ⟨statement.slot, fault⟩ ∧
        d.shape.operandKinds[position]? = some kind ∧
        operands.FaultAt symbols position kind fault ∧
        ∀ earlier < position, ∀ other, d.shape.operandKinds[earlier]? = some other →
          operands.HoldsAt symbols earlier other := by
  rw [← fault?_eq_some_iff, target.fault?_encodeStatement symbols hbody hfind,
    Option.map_eq_some_iff]
  simp only [operands.firstFault?_eq_some_iff, Nat.zero_add]
  constructor
  · rintro ⟨fault, ⟨position, kind, hfirst⟩, rfl⟩
    exact ⟨position, kind, fault, rfl, hfirst⟩
  · rintro ⟨position, kind, fault, rfl, hfirst⟩
    exact ⟨fault, ⟨position, kind, hfirst⟩, rfl⟩

theorem encodeStatement_eq_unknownMnemonic_iff {statement : Statement} {operands : Operands}
    (hbody : statement.body = .instruction operands.mnemonic operands.tokens) :
    target.encodeStatement symbols statement =
        .error ⟨statement.slot, .unknownMnemonic operands.mnemonic⟩ ↔
      target.instructions.find? operands.mnemonic = none := by
  constructor
  · intro hunknown
    cases hfind : target.instructions.find? operands.mnemonic with
    | none => rfl
    | some d =>
      obtain ⟨position, kind, fault, heq, -, hat, -⟩ :=
        (target.encodeStatement_eq_error_iff symbols hbody hfind _).mp hunknown
      exact absurd (congrArg Diagnostic.fault heq.symm) (hat.ne_unknownMnemonic _)
  · intro hnone
    rw [target.encodeStatement_instruction symbols hbody,
      target.encodeInstruction_of_find?_eq_none symbols _ hnone]
    rfl

theorem encodeStatement_of_take_eq {statement other : Statement} {operands others : Operands}
    (hbody : statement.body = .instruction operands.mnemonic operands.tokens)
    (hother : other.body = .instruction others.mnemonic others.tokens)
    (hslot : other.slot = statement.slot) (hmnemonic : others.mnemonic = operands.mnemonic)
    {d : Definition} (hfind : target.instructions.find? operands.mnemonic = some d)
    (htake : others.tokens.take d.shape.operandKinds.length =
      operands.tokens.take d.shape.operandKinds.length) :
    target.encodeStatement symbols other = target.encodeStatement symbols statement := by
  have hfind' : target.instructions.find? others.mnemonic = some d := by rw [hmnemonic, hfind]
  rw [target.encodeStatement_instruction symbols hbody,
    target.encodeStatement_instruction symbols hother,
    target.encodeInstruction_of_find?_eq_some symbols _ hfind,
    target.encodeInstruction_of_find?_eq_some symbols _ hfind',
    Operation.resolve_of_take_eq symbols d.shape hmnemonic htake, hslot]

/-- An instruction line has an unknown mnemonic exactly if there is no definition for it. With a
definition, the line is encoded exactly if each operand of the shape can be read, and otherwise the
fault is that of the first operand that cannot. Tokens after the operands make no difference. -/
theorem encodeStatement_fault_position (statement : Statement) (operands : Operands)
    (hbody : statement.body = .instruction operands.mnemonic operands.tokens) :
    (target.encodeStatement symbols statement =
        .error ⟨statement.slot, .unknownMnemonic operands.mnemonic⟩ ↔
      target.instructions.find? operands.mnemonic = none) ∧
    ∀ d, target.instructions.find? operands.mnemonic = some d →
      ((∃ encoding, target.encodeStatement symbols statement = .ok encoding) ↔
        ∀ position kind, d.shape.operandKinds[position]? = some kind →
          operands.HoldsAt symbols position kind) ∧
      (∀ diagnostic, target.encodeStatement symbols statement = .error diagnostic ↔
        ∃ position kind fault, diagnostic = ⟨statement.slot, fault⟩ ∧
          d.shape.operandKinds[position]? = some kind ∧
          operands.FaultAt symbols position kind fault ∧
          ∀ earlier < position, ∀ other, d.shape.operandKinds[earlier]? = some other →
            operands.HoldsAt symbols earlier other) ∧
      ∀ (other : Statement) (tokens : List String), other.slot = statement.slot →
        other.body = .instruction operands.mnemonic tokens →
        tokens.take d.shape.operandKinds.length =
          operands.tokens.take d.shape.operandKinds.length →
        target.encodeStatement symbols other = target.encodeStatement symbols statement := by
  refine ⟨target.encodeStatement_eq_unknownMnemonic_iff symbols hbody, ?_⟩
  intro d hfind
  refine ⟨?_, target.encodeStatement_eq_error_iff symbols hbody hfind, ?_⟩
  · rw [← fault?_eq_none_iff, target.fault?_encodeStatement symbols hbody hfind,
      Option.map_eq_none_iff, operands.firstFault?_eq_none_iff]
    simp only [Nat.zero_add]
  · intro other tokens hslot hother htake
    exact @encodeStatement_of_take_eq target symbols statement other operands
      ⟨operands.mnemonic, tokens⟩ hbody hother hslot rfl d hfind htake

/-- The second operand is no register and the label after it is undefined. -/
theorem encodeStatement_fault_position_of_two :
    (Statement.parse 7 "BEQ $t0, 9, away").body = .instruction "BEQ" ["$t0", "9", "away"] ∧
      InstructionSet.standard.find? "BEQ" = some ⟨"beq", .immediate, 4, 0⟩ ∧
      encodeStatement ⟨InstructionSet.standard, 0⟩ .empty (Statement.parse 7 "BEQ $t0, 9, away") =
        .error ⟨7, .unknownRegister "9"⟩ := by
  have hbody : (Statement.parse 7 "BEQ $t0, 9, away").body =
      .instruction "BEQ" ["$t0", "9", "away"] := by decide
  have hfind : InstructionSet.standard.find? "BEQ" = some ⟨"beq", .immediate, 4, 0⟩ := rfl
  have hfirst : ∀ earlier < 1, ∀ other,
      Shape.branchEqual.operandKinds[earlier]? = some other →
        Operands.HoldsAt ⟨"BEQ", ["$t0", "9", "away"]⟩ .empty earlier other := by
    rintro earlier hearlier other hother
    cases Nat.lt_one_iff.mp hearlier
    cases hother
    exact ⟨"$t0", rfl, by decide⟩
  refine ⟨hbody, hfind, ?_⟩
  exact (((encodeStatement_fault_position ⟨InstructionSet.standard, 0⟩ .empty _
    ⟨"BEQ", ["$t0", "9", "away"]⟩ hbody).2 _ hfind).2.1 _).mpr
      ⟨1, .register, .unknownRegister "9", rfl, rfl, .refused rfl (by decide), hfirst⟩

end Target

end Mips
