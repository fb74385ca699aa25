import Mips.Program.Assemble
import Mips.Proofs.Source.Declarations
import Mips.Proofs.Word.Fields
import Mips.Register.File

/-! # The two passes, position by position

Assembling goes over the lines twice. What it gives is fixed by each line on its own, once the
symbol table of the lines is known:

* `Target.Assembles target lines program`: the program has one slot for each line, encoded against
  the table of the lines.
* `Target.assemble_eq_ok_iff`, `Target.assemble_eq_error_iff`: assembling succeeds exactly with
  such a program, and fails with the fault of the first pass or with the fault of the first line
  that cannot be encoded. -/

namespace Mips
set_option autoImplicit false

/-! ## Traversals that stop at a fault -/

theorem mapM_eq_ok_iff {α β ε : Type} (f : α → Except ε β) (xs : List α) (ys : List β) :
    xs.mapM f = .ok ys ↔
      ys.length = xs.length ∧
        ∀ (i : Nat) (x : α), xs[i]? = some x → ∃ y, f x = .ok y ∧ ys[i]? = some y := by
  induction xs generalizing ys with
  | nil =>
    rw [List.mapM_nil]
    constructor
    · intro h
      cases h
      exact ⟨rfl, fun i x hx => by simp at hx⟩
    · intro h
      obtain ⟨hlength, -⟩ := h
      rw [List.length_eq_zero_iff.mp hlength]
      rfl
  | cons x xs ih =>
    rw [List.mapM_cons]
    constructor
    · intro h
      cases hx : f x with
      | error e =>
        rw [hx] at h
        cases h
      | ok y =>
        cases hxs : xs.mapM f with
        | error e =>
          rw [hx, hxs] at h
          cases h
        | ok rest =>
          rw [hx, hxs] at h
          cases h
          obtain ⟨hlength, hrest⟩ := (ih rest).mp hxs
          refine ⟨by simp [hlength], ?_⟩
          intro i z hz
          cases i with
          | zero =>
            rw [List.getElem?_cons_zero] at hz
            cases hz
            exact ⟨y, hx, rfl⟩
          | succ i => exact hrest i z hz
    · intro h
      obtain ⟨hlength, h⟩ := h
      obtain ⟨y, hx, hy⟩ := h 0 x rfl
      cases ys with
      | nil => cases hy
      | cons y' rest =>
        cases hy
        have hxs : xs.mapM f = .ok rest := by
          apply (ih rest).mpr
          exact ⟨by simpa using hlength, fun i z hz => h (i + 1) z hz⟩
        rw [hx, hxs]
        rfl

theorem mapM_eq_error_iff {α β ε : Type} (f : α → Except ε β) (xs : List α) (e : ε) :
    xs.mapM f = .error e ↔
      ∃ (i : Nat) (x : α), xs[i]? = some x ∧ f x = .error e ∧
        ∀ j < i, ∀ z, xs[j]? = some z → ∃ y, f z = .ok y := by
  induction xs with
  | nil =>
    rw [List.mapM_nil]
    constructor
    · intro h
      cases h
    · intro h
      obtain ⟨i, x, hx, -⟩ := h
      cases hx
  | cons x xs ih =>
    rw [List.mapM_cons]
    cases hx : f x with
    | error e' =>
      constructor
      · intro h
        cases h
        exact ⟨0, x, rfl, hx, fun j hj => absurd hj (Nat.not_lt_zero j)⟩
      · intro h
        obtain ⟨i, z, hz, he, hbefore⟩ := h
        cases i with
        | zero =>
          cases hz
          rw [hx] at he
          cases he
          rfl
        | succ i =>
          obtain ⟨y, hy⟩ := hbefore 0 (Nat.succ_pos i) x rfl
          rw [hx] at hy
          cases hy
    | ok y =>
      have hstep : (do let y ← (.ok y : Except ε β); let ys ← xs.mapM f; pure (y :: ys)) =
          .error e ↔ xs.mapM f = .error e := by
        cases xs.mapM f with
        | error e' => exact Iff.rfl
        | ok ys => constructor <;> intro h <;> cases h
      rw [hstep, ih]
      constructor
      · intro h
        obtain ⟨i, z, hz, he, hbefore⟩ := h
        refine ⟨i + 1, z, hz, he, ?_⟩
        intro j hj z' hz'
        cases j with
        | zero =>
          cases hz'
          exact ⟨y, hx⟩
        | succ j => exact hbefore j (by omega) z' hz'
      · intro h
        obtain ⟨i, z, hz, he, hbefore⟩ := h
        cases i with
        | zero =>
          cases hz
          rw [hx] at he
          cases he
        | succ i => exact ⟨i, z, hz, he, fun j hj z' hz' => hbefore (j + 1) (by omega) z' hz'⟩

namespace Target

/-! ## Assembling -/

theorem encodeSlot_eq_ok_iff (target : Target) (symbols : Symbols) (statement : Statement)
    (slot : Slot) :
    target.encodeSlot symbols statement = .ok slot ↔
      ∃ encoding, target.encodeStatement symbols statement = .ok encoding ∧
        slot = ⟨statement, slotAddress target.base statement.slot, encoding⟩ := by
  unfold encodeSlot
  cases target.encodeStatement symbols statement with
  | error diagnostic => simp [Except.map]
  | ok encoding => simp [Except.map, eq_comm]

theorem encodeSlot_eq_error_iff (target : Target) (symbols : Symbols) (statement : Statement)
    (diagnostic : Diagnostic) :
    target.encodeSlot symbols statement = .error diagnostic ↔
      target.encodeStatement symbols statement = .error diagnostic := by
  unfold encodeSlot
  cases target.encodeStatement symbols statement <;> simp [Except.map]

/-- A program is what lines assemble to, each line at its own position. -/
structure Assembles (target : Target) (lines : List String) (program : Program) : Prop where
  base_eq : program.base = target.base
  symbols_eq : Symbols.ofLines lines = .ok program.symbols
  length_slots : program.slots.length = lines.length
  slot_eq (slot : Nat) (line : String) : lines[slot]? = some line →
    ∃ encoding, target.encodeStatement program.symbols (Statement.parse slot line) = .ok encoding ∧
      program.slots[slot]? =
        some ⟨Statement.parse slot line, slotAddress target.base slot, encoding⟩

theorem assemble_eq (target : Target) (lines : List String) :
    target.assemble lines =
      Symbols.ofLines lines >>= fun symbols =>
        ((Statement.parseLines lines).mapM (target.encodeSlot symbols)).map
          fun slots => ⟨target.base, slots, symbols⟩ := by
  rw [Symbols.ofLines_eq_ofStatements]
  rfl

theorem mapM_encodeSlot_eq_ok_iff (target : Target) (symbols : Symbols) (lines : List String)
    (slots : List Slot) :
    (Statement.parseLines lines).mapM (target.encodeSlot symbols) = .ok slots ↔
      slots.length = lines.length ∧ ∀ (slot : Nat) (line : String), lines[slot]? = some line →
        ∃ encoding, target.encodeStatement symbols (Statement.parse slot line) = .ok encoding ∧
          slots[slot]? =
            some ⟨Statement.parse slot line, slotAddress target.base slot, encoding⟩ := by
  rw [mapM_eq_ok_iff, Statement.length_parseLines]
  simp only [Statement.getElem?_parseLines, Option.map_eq_some_iff]
  refine and_congr_right fun _ => ⟨?_, ?_⟩
  · intro h slot line hline
    obtain ⟨result, hresult, hget⟩ := h slot _ ⟨line, hline, rfl⟩
    obtain ⟨encoding, hencoding, rfl⟩ := (encodeSlot_eq_ok_iff _ _ _ _).mp hresult
    exact ⟨encoding, hencoding, hget⟩
  · rintro h slot _ ⟨line, hline, rfl⟩
    obtain ⟨encoding, hencoding, hget⟩ := h slot line hline
    exact ⟨_, (encodeSlot_eq_ok_iff _ _ _ _).mpr ⟨encoding, hencoding, rfl⟩, hget⟩

theorem mapM_encodeSlot_eq_error_iff (target : Target) (symbols : Symbols) (lines : List String)
    (diagnostic : Diagnostic) :
    (Statement.parseLines lines).mapM (target.encodeSlot symbols) = .error diagnostic ↔
      ∃ (slot : Nat) (line : String), lines[slot]? = some line ∧
        target.encodeStatement symbols (Statement.parse slot line) = .error diagnostic ∧
        ∀ earlier < slot, ∀ before, lines[earlier]? = some before →
          ∃ encoding,
            target.encodeStatement symbols (Statement.parse earlier before) = .ok encoding := by
  rw [mapM_eq_error_iff]
  simp only [Statement.getElem?_parseLines, Option.map_eq_some_iff]
  constructor
  · intro h
    obtain ⟨slot, _, ⟨line, hline, rfl⟩, hfault, hbefore⟩ := h
    refine ⟨slot, line, hline, (encodeSlot_eq_error_iff _ _ _ _).mp hfault, ?_⟩
    intro earlier hlt before hget
    obtain ⟨result, hresult⟩ := hbefore earlier hlt _ ⟨before, hget, rfl⟩
    obtain ⟨encoding, hencoding, -⟩ := (encodeSlot_eq_ok_iff _ _ _ _).mp hresult
    exact ⟨encoding, hencoding⟩
  · intro h
    obtain ⟨slot, line, hline, hfault, hbefore⟩ := h
    refine ⟨slot, _, ⟨line, hline, rfl⟩, (encodeSlot_eq_error_iff _ _ _ _).mpr hfault, ?_⟩
    rintro earlier hlt _ ⟨before, hget, rfl⟩
    obtain ⟨encoding, hencoding⟩ := hbefore earlier hlt before hget
    exact ⟨_, (encodeSlot_eq_ok_iff _ _ _ _).mpr ⟨encoding, hencoding, rfl⟩⟩

theorem assemble_eq_ok_iff (target : Target) (lines : List String) (program : Program) :
    target.assemble lines = .ok program ↔ target.Assembles lines program := by
  rw [assemble_eq]
  constructor
  · intro h
    cases hsymbols : Symbols.ofLines lines with
    | error diagnostic =>
      rw [hsymbols] at h
      cases h
    | ok symbols =>
      cases hslots : (Statement.parseLines lines).mapM (target.encodeSlot symbols) with
      | error diagnostic =>
        rw [hsymbols] at h
        simp [bind, Except.bind, Except.map, hslots] at h
      | ok slots =>
        rw [hsymbols] at h
        simp only [bind, Except.bind, Except.map, hslots, Except.ok.injEq] at h
        obtain ⟨hlength, hget⟩ := (mapM_encodeSlot_eq_ok_iff _ _ _ _).mp hslots
        rw [← h]
        exact ⟨rfl, hsymbols, hlength, hget⟩
  · intro h
    obtain ⟨hbase, hsymbols, hlength, hget⟩ := h
    have hslots := (mapM_encodeSlot_eq_ok_iff target program.symbols lines program.slots).mpr
      ⟨hlength, hget⟩
    rw [hsymbols]
    simp only [bind, Except.bind, Except.map, hslots, ← hbase]

theorem Assembles.placedWord {target : Target} {lines : List String} {program : Program}
    (h : target.Assembles lines program) {slot : Nat} {line : String}
    (hline : lines[slot]? = some line) :
    ∃ encoding, target.encodeStatement program.symbols (Statement.parse slot line) = .ok encoding ∧
      program.placedWords[slot]? =
        some ⟨slot, slotAddress target.base slot, encoding.word, encoding.truncated, line⟩ := by
  obtain ⟨encoding, hencoding, hget⟩ := h.slot_eq slot line hline
  refine ⟨encoding, hencoding, ?_⟩
  rw [Program.placedWords, List.getElem?_map, hget]
  rfl

theorem Assembles.statements_eq {target : Target} {lines : List String} {program : Program}
    (h : target.Assembles lines program) : program.statements = Statement.parseLines lines := by
  apply List.ext_getElem?
  intro slot
  rw [Program.statements, List.getElem?_map, Statement.getElem?_parseLines]
  cases hline : lines[slot]? with
  | none =>
    have hlength : program.slots.length ≤ slot := by
      rw [h.length_slots]
      exact List.getElem?_eq_none_iff.mp hline
    rw [List.getElem?_eq_none hlength]
    rfl
  | some line =>
    obtain ⟨encoding, -, hget⟩ := h.slot_eq slot line hline
    rw [hget]
    rfl

theorem Assembles.slot_of_getElem? {target : Target} {lines : List String} {program : Program}
    (h : target.Assembles lines program) {k : Nat} {slot : Slot}
    (hslot : program.slots[k]? = some slot) : slot.statement.slot = k := by
  have hstatement : (Statement.parseLines lines)[k]? = some slot.statement := by
    rw [← h.statements_eq, Program.statements, List.getElem?_map, hslot]
    rfl
  rw [Statement.getElem?_parseLines, Option.map_eq_some_iff] at hstatement
  obtain ⟨line, _, hline⟩ := hstatement
  rw [← hline]
  rfl

theorem Assembles.address_of_getElem? {target : Target} {lines : List String} {program : Program}
    (h : target.Assembles lines program) {k : Nat} {slot : Slot}
    (hslot : program.slots[k]? = some slot) : slot.address = program.addressOf k := by
  have hlt : k < lines.length := by
    rw [← h.length_slots]
    exact (List.getElem?_eq_some_iff.mp hslot).1
  obtain ⟨encoding, -, hget⟩ := h.slot_eq k _ (List.getElem?_eq_getElem hlt)
  rw [hslot, Option.some.injEq] at hget
  rw [hget, Program.addressOf, h.base_eq]

/-- The slot of a label is a slot of the program. -/
theorem Assembles.exists_placedWord {target : Target} {lines : List String} {program : Program}
    (h : target.Assembles lines program) {name : String} {place : Nat}
    (hslot : program.symbols.slotOf? name = some place) :
    ∃ there, program.placedWords[place]? = some there ∧
      there.address = program.addressOf place := by
  rw [Symbols.slotOf?_of_ofLines h.symbols_eq] at hslot
  have hlt := firstSlot?_lt hslot
  obtain ⟨encoding, -, hget⟩ := h.placedWord (List.getElem?_eq_getElem hlt)
  refine ⟨_, hget, ?_⟩
  rw [Program.addressOf, h.base_eq]

theorem exists_assemble_eq_ok (target : Target) (lines : List String) (symbols : Symbols)
    (hsymbols : Symbols.ofLines lines = .ok symbols)
    (hencodings : ∀ (slot : Nat) (line : String), lines[slot]? = some line →
      ∃ encoding, target.encodeStatement symbols (Statement.parse slot line) = .ok encoding) :
    ∃ program, target.assemble lines = .ok program := by
  cases hslots : (Statement.parseLines lines).mapM (target.encodeSlot symbols) with
  | ok slots =>
    obtain ⟨hlength, hget⟩ := (mapM_encodeSlot_eq_ok_iff _ _ _ _).mp hslots
    refine ⟨⟨target.base, slots, symbols⟩, ?_⟩
    exact (assemble_eq_ok_iff _ _ _).mpr ⟨rfl, hsymbols, hlength, hget⟩
  | error diagnostic =>
    obtain ⟨slot, line, hline, hfault, -⟩ := (mapM_encodeSlot_eq_error_iff _ _ _ _).mp hslots
    obtain ⟨encoding, hencoding⟩ := hencodings slot line hline
    rw [hencoding] at hfault
    cases hfault

theorem assemble_eq_error_iff (target : Target) (lines : List String) (diagnostic : Diagnostic) :
    target.assemble lines = .error diagnostic ↔
      Symbols.ofLines lines = .error diagnostic ∨
      ∃ symbols, Symbols.ofLines lines = .ok symbols ∧
        (Statement.parseLines lines).mapM (target.encodeSlot symbols) = .error diagnostic := by
  rw [assemble_eq]
  cases hsymbols : Symbols.ofLines lines with
  | error fault => simp [bind, Except.bind]
  | ok symbols =>
    cases hslots : (Statement.parseLines lines).mapM (target.encodeSlot symbols) with
    | error fault => simp [bind, Except.bind, Except.map, hslots]
    | ok slots => simp [bind, Except.bind, Except.map, hslots]

/-- The program of lines, and why there is none if there is none: it has the table of the lines,
and for each line a word at the address of its slot, encoded against that table. Without a table
the fault is that of the table, and otherwise that of the first line that cannot be encoded. -/
theorem assemble_by_position (instructions : InstructionSet) (file : RegisterFile)
    (lines : List String) :
    ((∃ program, assemble ⟨instructions, file.base⟩ lines = .ok program) ↔
      ∃ symbols, Symbols.ofLines lines = .ok symbols ∧
        ∀ (slot : Nat) (line : String), lines[slot]? = some line →
          ∃ encoding, encodeStatement ⟨instructions, file.base⟩ symbols
            (Statement.parse slot line) = .ok encoding) ∧
    (∀ program, assemble ⟨instructions, file.base⟩ lines = .ok program →
      Symbols.ofLines lines = .ok program.symbols ∧
      program.placedWords.length = lines.length ∧
      ∀ (slot : Nat) (line : String), lines[slot]? = some line →
        ∃ encoding, encodeStatement ⟨instructions, file.base⟩ program.symbols
            (Statement.parse slot line) = .ok encoding ∧
          program.placedWords[slot]? =
            some ⟨slot, file.base + BitVec.ofNat 32 (4 * slot), encoding.word,
              encoding.truncated, line⟩) ∧
    (∀ diagnostic, assemble ⟨instructions, file.base⟩ lines = .error diagnostic ↔
      Symbols.ofLines lines = .error diagnostic ∨
      ∃ symbols, Symbols.ofLines lines = .ok symbols ∧
        ∃ (slot : Nat) (line : String), lines[slot]? = some line ∧
          encodeStatement ⟨instructions, file.base⟩ symbols (Statement.parse slot line) =
            .error diagnostic ∧
          ∀ earlier < slot, ∀ before, lines[earlier]? = some before →
            ∃ encoding, encodeStatement ⟨instructions, file.base⟩ symbols
              (Statement.parse earlier before) = .ok encoding) := by
  refine ⟨⟨?_, ?_⟩, ?_, ?_⟩
  · intro h
    obtain ⟨program, h⟩ := h
    have hassembles := (assemble_eq_ok_iff _ _ _).mp h
    refine ⟨program.symbols, hassembles.symbols_eq, ?_⟩
    intro slot line hline
    obtain ⟨encoding, hencoding, -⟩ := hassembles.slot_eq slot line hline
    exact ⟨encoding, hencoding⟩
  · intro h
    obtain ⟨symbols, hsymbols, hencodings⟩ := h
    exact exists_assemble_eq_ok _ _ _ hsymbols hencodings
  · intro program h
    have hassembles := (assemble_eq_ok_iff _ _ _).mp h
    refine ⟨hassembles.symbols_eq, ?_, ?_⟩
    · rw [Program.placedWords, List.length_map, hassembles.length_slots]
    · intro slot line hline
      obtain ⟨encoding, hencoding, hget⟩ := hassembles.placedWord hline
      refine ⟨encoding, hencoding, ?_⟩
      rw [hget, slotAddress_eq_add]
  · intro diagnostic
    simp only [assemble_eq_error_iff, mapM_encodeSlot_eq_error_iff]

end Target

end Mips
