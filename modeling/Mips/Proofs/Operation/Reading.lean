import Mips.Operation.Encoding

/-! # Operations and the tokens they are read from

`Operation.resolve` goes through the operands of a shape in order. Where it succeeds the order does
not matter: the operation is the one whose operands stand at their positions among the tokens
(`Operation.resolve_eq_ok_iff`), and a line is encoded exactly if its mnemonic has a definition and
its tokens an operation of that shape (`Target.encodeStatement_eq_ok_iff`).

`Statement.shape?` and `Statement.namedLabel?` are the shape of the instruction that a line asks for
and the label that it names. A line that was encoded has the operation of this shape, with the slot
of this label (`Target.exists_operation_of_shape?`, `Target.exists_namedLabel`). -/

namespace Mips
set_option autoImplicit false

theorem bind_eq_ok_iff {α β ε : Type} (x : Except ε α) (f : α → Except ε β) (b : β) :
    (x >>= f) = .ok b ↔ ∃ a, x = .ok a ∧ f a = .ok b := by
  cases x with
  | error e => simp [bind, Except.bind]
  | ok a => simp [bind, Except.bind]

theorem bind_eq_error_iff {α β ε : Type} (x : Except ε α) (f : α → Except ε β) (e : ε) :
    (x >>= f) = .error e ↔ x = .error e ∨ ∃ a, x = .ok a ∧ f a = .error e := by
  cases x with
  | error e => simp [bind, Except.bind]
  | ok a => simp [bind, Except.bind]

/-- A fold fails at the first item that its step refuses. -/
theorem foldlM_eq_error_iff {α σ ε : Type} (step : σ → α → Except ε σ) (items : List α)
    (start : σ) (e : ε) :
    items.foldlM step start = .error e ↔
      ∃ before item after state, items = before ++ item :: after ∧
        before.foldlM step start = .ok state ∧ step state item = .error e := by
  induction items generalizing start with
  | nil => simp [pure, Except.pure]
  | cons item items ih =>
    rw [List.foldlM_cons, bind_eq_error_iff]
    simp only [ih]
    constructor
    · intro h
      rcases h with h | ⟨next, hnext, before, other, after, state, hitems, hbefore, hother⟩
      · exact ⟨[], item, items, start, rfl, rfl, h⟩
      · refine ⟨item :: before, other, after, state, ?_, ?_, hother⟩
        · rw [hitems, List.cons_append]
        · rw [List.foldlM_cons, bind_eq_ok_iff]
          exact ⟨next, hnext, hbefore⟩
    · intro h
      obtain ⟨before, other, after, state, hitems, hbefore, hother⟩ := h
      cases before with
      | nil =>
        left
        cases hitems
        cases hbefore
        exact hother
      | cons first before =>
        right
        obtain ⟨rfl, rfl⟩ := List.cons.inj hitems
        rw [List.foldlM_cons, bind_eq_ok_iff] at hbefore
        obtain ⟨next, hnext, hbefore⟩ := hbefore
        exact ⟨next, hnext, before, other, after, state, rfl, hbefore, hother⟩

theorem mapError_eq_ok_iff {α ε δ : Type} (x : Except ε α) (f : ε → δ) (a : α) :
    x.mapError f = .ok a ↔ x = .ok a := by
  cases x with
  | error e => constructor <;> intro h <;> cases h
  | ok b =>
    constructor
    · intro h
      cases h
      rfl
    · intro h
      cases h
      rfl

theorem mapError_eq_error_iff {α ε δ : Type} (x : Except ε α) (f : ε → δ) (e : δ) :
    x.mapError f = .error e ↔ ∃ cause, x = .error cause ∧ f cause = e := by
  cases x with
  | error cause =>
    constructor
    · intro h
      exact ⟨cause, rfl, Except.error.inj h⟩
    · rintro ⟨_, ⟨⟩, rfl⟩
      rfl
  | ok a =>
    constructor
    · intro h
      cases h
    · rintro ⟨_, ⟨⟩, _⟩

/-! ## One operand -/

def RegisterAt (tokens : List String) (position : Nat) (r : Register) : Prop :=
  tokens[position]?.bind Register.ofName? = some r

def LiteralAt (tokens : List String) (position : Nat) (value : Int) : Prop :=
  tokens[position]?.bind Text.integer64 = some value

def LabelAt (symbols : Symbols) (tokens : List String) (position : Nat) (slot : Nat) : Prop :=
  tokens[position]?.bind symbols.slotOf? = some slot

namespace Operands

theorem register_eq_ok_iff (operands : Operands) (position : Nat) (r : Register) :
    operands.register position = .ok r ↔ RegisterAt operands.tokens position r := by
  unfold register token RegisterAt
  cases operands.tokens[position]? with
  | none => simp [bind, Except.bind]
  | some token =>
    simp only [bind, Except.bind, Option.bind_some]
    cases Register.ofName? token <;> simp

theorem literal_eq_ok_iff (operands : Operands) (position : Nat) (value : Int) :
    operands.literal position = .ok value ↔ LiteralAt operands.tokens position value := by
  unfold literal token LiteralAt
  cases operands.tokens[position]? with
  | none => simp [bind, Except.bind]
  | some token =>
    simp only [bind, Except.bind, Option.bind_some]
    cases Text.integer64 token <;> simp

theorem label_eq_ok_iff (operands : Operands) (symbols : Symbols) (position slot : Nat) :
    operands.label symbols position = .ok slot ↔
      LabelAt symbols operands.tokens position slot := by
  unfold label token LabelAt
  cases operands.tokens[position]? with
  | none => simp [bind, Except.bind]
  | some token =>
    simp only [bind, Except.bind, Option.bind_some]
    cases symbols.slotOf? token <;> simp

end Operands

/-! ## All operands -/

/-- The position of the label among the operands, for the shapes that have one. -/
def Shape.labelPosition? : Shape → Option Nat
  | .branchEqual => some 2
  | .branchCompare => some 1
  | .jump => some 0
  | _ => none

namespace Operation

def shape : Operation → Shape
  | .jumpRegister _ => .jumpRegister
  | .shift _ _ _ => .shift
  | .arithmetic _ _ _ => .arithmetic
  | .branchEqual _ _ _ => .branchEqual
  | .branchCompare _ _ => .branchCompare
  | .immediate _ _ _ => .immediate
  | .jump _ => .jump

/-- The slot of the label, for the operations that have one. -/
def target? : Operation → Option Nat
  | .branchEqual _ _ target | .branchCompare _ target | .jump target => some target
  | _ => none

/-- The operands of an operation stand among the tokens, each at its own position. -/
def ReadFrom (symbols : Symbols) (tokens : List String) : Operation → Prop
  | .jumpRegister target => RegisterAt tokens 0 target
  | .shift rd rt amount =>
    RegisterAt tokens 0 rd ∧ RegisterAt tokens 1 rt ∧ LiteralAt tokens 2 amount
  | .arithmetic rd rs rt => RegisterAt tokens 0 rd ∧ RegisterAt tokens 1 rs ∧ RegisterAt tokens 2 rt
  | .branchEqual rs rt target =>
    RegisterAt tokens 0 rs ∧ RegisterAt tokens 1 rt ∧ LabelAt symbols tokens 2 target
  | .branchCompare rs target => RegisterAt tokens 0 rs ∧ LabelAt symbols tokens 1 target
  | .immediate rt rs value =>
    RegisterAt tokens 0 rt ∧ RegisterAt tokens 1 rs ∧ LiteralAt tokens 2 value
  | .jump target => LabelAt symbols tokens 0 target

theorem readFrom_of_resolve {symbols : Symbols} {operands : Operands} {shape : Shape}
    {operation : Operation} (h : resolve symbols operands shape = .ok operation) :
    operation.shape = shape ∧ operation.ReadFrom symbols operands.tokens := by
  cases shape <;>
    simp only [resolve, bind_eq_ok_iff, Operands.register_eq_ok_iff, Operands.literal_eq_ok_iff,
      Operands.label_eq_ok_iff, pure, Except.pure, Except.ok.injEq] at h
  case jumpRegister =>
    obtain ⟨target, htarget, rfl⟩ := h
    exact ⟨rfl, htarget⟩
  case shift =>
    obtain ⟨rd, hrd, rt, hrt, amount, hamount, rfl⟩ := h
    exact ⟨rfl, hrd, hrt, hamount⟩
  case arithmetic =>
    obtain ⟨rd, hrd, rs, hrs, rt, hrt, rfl⟩ := h
    exact ⟨rfl, hrd, hrs, hrt⟩
  case branchEqual =>
    obtain ⟨rs, hrs, rt, hrt, target, htarget, rfl⟩ := h
    exact ⟨rfl, hrs, hrt, htarget⟩
  case branchCompare =>
    obtain ⟨rs, hrs, target, htarget, rfl⟩ := h
    exact ⟨rfl, hrs, htarget⟩
  case immediate =>
    obtain ⟨rt, hrt, rs, hrs, value, hvalue, rfl⟩ := h
    exact ⟨rfl, hrt, hrs, hvalue⟩
  case jump =>
    obtain ⟨target, htarget, rfl⟩ := h
    exact ⟨rfl, htarget⟩

theorem resolve_of_readFrom {symbols : Symbols} {operands : Operands} {operation : Operation}
    (h : operation.ReadFrom symbols operands.tokens) :
    resolve symbols operands operation.shape = .ok operation := by
  cases operation <;>
    simp only [ReadFrom, ← Operands.register_eq_ok_iff, ← Operands.literal_eq_ok_iff,
      ← Operands.label_eq_ok_iff] at h <;>
    simp only [resolve, Operation.shape, h, bind, Except.bind, pure, Except.pure]

theorem resolve_eq_ok_iff (symbols : Symbols) (operands : Operands) (shape : Shape)
    (operation : Operation) :
    resolve symbols operands shape = .ok operation ↔
      operation.shape = shape ∧ operation.ReadFrom symbols operands.tokens := by
  refine ⟨readFrom_of_resolve, ?_⟩
  intro h
  rw [← h.1]
  exact resolve_of_readFrom h.2

theorem isSome_target? (operation : Operation) :
    operation.target?.isSome = operation.shape.labelPosition?.isSome := by
  cases operation <;> rfl

theorem ReadFrom.labelAt {symbols : Symbols} {tokens : List String} {operation : Operation}
    (h : operation.ReadFrom symbols tokens) {position : Nat}
    (hposition : operation.shape.labelPosition? = some position) :
    ∃ place, operation.target? = some place ∧ LabelAt symbols tokens position place := by
  cases operation with
  | branchEqual rs rt place =>
    cases hposition
    exact ⟨place, rfl, h.2.2⟩
  | branchCompare rs place =>
    cases hposition
    exact ⟨place, rfl, h.2⟩
  | jump place =>
    cases hposition
    exact ⟨place, rfl, h⟩
  | jumpRegister _ => cases hposition
  | shift _ _ _ => cases hposition
  | arithmetic _ _ _ => cases hposition
  | immediate _ _ _ => cases hposition

end Operation

/-! ## A line -/

namespace Statement

/-- The shape of the instruction that a line asks for, if its mnemonic has a definition. -/
def shape? (instructions : InstructionSet) (statement : Statement) : Option Shape :=
  match statement.body with
  | .instruction mnemonic _ => (instructions.find? mnemonic).map Definition.shape
  | _ => none

/-- The token in the place of the label, for an instruction of a shape that has one. -/
def namedLabel? (instructions : InstructionSet) (statement : Statement) : Option String :=
  match statement.body with
  | .instruction _ tokens =>
    (statement.shape? instructions).bind fun shape =>
      shape.labelPosition?.bind fun position => tokens[position]?
  | _ => none

end Statement

namespace Target

theorem encodeInstruction_eq_ok_iff (target : Target) (symbols : Symbols) (slot : Nat)
    (operands : Operands) (encoding : Encoding) :
    target.encodeInstruction symbols slot operands = .ok encoding ↔
      ∃ (d : Definition) (operation : Operation),
        target.instructions.find? operands.mnemonic = some d ∧ operation.shape = d.shape ∧
        operation.ReadFrom symbols operands.tokens ∧
        encoding = operation.encode d target.base slot := by
  unfold encodeInstruction
  cases target.instructions.find? operands.mnemonic with
  | none => simp
  | some d =>
    simp only [bind_eq_ok_iff, Operation.resolve_eq_ok_iff, pure, Except.pure, Except.ok.injEq,
      Option.some.injEq, and_assoc, exists_and_left, exists_eq_left', @eq_comm _ encoding]

/-- A line is encoded if it asks for no instruction, or if its mnemonic has a definition and its
tokens an operation of that shape. -/
theorem encodeStatement_eq_ok_iff (target : Target) (symbols : Symbols) (statement : Statement)
    (encoding : Encoding) :
    target.encodeStatement symbols statement = .ok encoding ↔
      (statement.isFiller = true ∧ encoding = .zero) ∨
      ∃ (mnemonic : String) (tokens : List String) (d : Definition) (operation : Operation),
        statement.body = .instruction mnemonic tokens ∧
        target.instructions.find? mnemonic = some d ∧ operation.shape = d.shape ∧
        operation.ReadFrom symbols tokens ∧
        encoding = operation.encode d target.base statement.slot := by
  unfold encodeStatement Statement.isFiller
  cases statement.body with
  | instruction mnemonic tokens =>
    simp only [mapError_eq_ok_iff, encodeInstruction_eq_ok_iff, Bool.false_eq_true, false_and,
      false_or]
    constructor
    · intro h
      obtain ⟨d, operation, h⟩ := h
      exact ⟨mnemonic, tokens, d, operation, rfl, h⟩
    · intro h
      obtain ⟨_, _, d, operation, hbody, h⟩ := h
      cases hbody
      exact ⟨d, operation, h⟩
  | blank => simp [eq_comm]
  | comment => simp [eq_comm]
  | labelOnly => simp [eq_comm]
  | nop => simp [eq_comm]

theorem exists_operation_of_shape? {target : Target} {symbols : Symbols} {statement : Statement}
    {encoding : Encoding} {shape : Shape}
    (hencode : target.encodeStatement symbols statement = .ok encoding)
    (hshape : statement.shape? target.instructions = some shape) :
    ∃ (mnemonic : String) (tokens : List String) (d : Definition) (operation : Operation),
      statement.body = .instruction mnemonic tokens ∧ d.shape = shape ∧ operation.shape = shape ∧
      operation.ReadFrom symbols tokens ∧
      encoding = operation.encode d target.base statement.slot := by
  rw [encodeStatement_eq_ok_iff] at hencode
  obtain ⟨hfiller, -⟩ | ⟨mnemonic, tokens, d, operation, hbody, hfind, hd, hread, hencode⟩ := hencode
  · cases hbody : statement.body <;> simp [Statement.isFiller, Statement.shape?, hbody] at hfiller hshape
  · simp only [Statement.shape?, hbody, hfind, Option.map_some, Option.some.injEq] at hshape
    exact ⟨mnemonic, tokens, d, operation, hbody, hshape, hd.trans hshape, hread, hencode⟩

/-- A line whose instruction takes a label names one that is in the table. -/
theorem exists_namedLabel {target : Target} {symbols : Symbols} {statement : Statement}
    {encoding : Encoding} {shape : Shape} {position : Nat}
    (hencode : target.encodeStatement symbols statement = .ok encoding)
    (hshape : statement.shape? target.instructions = some shape)
    (hposition : shape.labelPosition? = some position) :
    ∃ (d : Definition) (operation : Operation) (name : String) (place : Nat),
      d.shape = shape ∧ operation.shape = shape ∧ operation.target? = some place ∧
      statement.namedLabel? target.instructions = some name ∧ symbols.slotOf? name = some place ∧
      encoding = operation.encode d target.base statement.slot := by
  obtain ⟨mnemonic, tokens, d, operation, hbody, hd, hoperation, hread, hencode⟩ :=
    exists_operation_of_shape? hencode hshape
  rw [← hoperation] at hposition
  obtain ⟨place, hplace, hat⟩ := hread.labelAt hposition
  obtain ⟨name, htoken, hslot⟩ := Option.bind_eq_some_iff.mp hat
  refine ⟨d, operation, name, place, hd, hoperation, hplace, ?_, hslot, hencode⟩
  rw [hoperation] at hposition
  simp only [Statement.namedLabel?, hbody, hshape, Option.bind_some, hposition, htoken]

end Target

end Mips
