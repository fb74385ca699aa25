import Mips.Proofs.Register.Histories
import Mips.Proofs.Register.Names

/-! # Registers as a store

A register can be written in many ways, by its number, by its name and by its number after a dollar
sign. All of them are about the same cell of the register file.

* `Cell`, `get`, `store`: the registers, general and special, as the cells of a store.
* `Cell.Numbered`, `Cell.Spelled`: the numbers and the texts that stand for a cell. The file is read
  and written through the one cell that they stand for (`readName_eq`, `writeName_eq`).
* `Update.IsAbout`, `apply_cases`: the cell that an update is about, and what it does to it.
* `lastWritten?`: the value of the last write to a cell among updates. This is what the cell holds
  after them (`get_run`).
* `remembers_run`: all this for a file that any updates led to. -/

namespace Mips.RegisterFile
set_option autoImplicit false

/-! ## Cells -/

inductive Cell where
  | general (r : Register)
  | special (r : SpecialRegister)
deriving DecidableEq, Repr

def get (file : RegisterFile) : Cell → Word
  | .general r => file.general.get r.toFin
  | .special r => file.readSpecial r

def store (file : RegisterFile) (value : Word) : Cell → RegisterFile
  | .general r => { file with general := file.general.set r.toNat value r.isLt }
  | .special r => file.writeSpecial value r

theorem get_store (file : RegisterFile) (value : Word) (cell other : Cell) :
    (file.store value cell).get other = if other = cell then value else file.get other := by
  cases cell with
  | general r =>
    cases other with
    | general s =>
      have hs := s.isLt
      have hindex : Cell.general s = .general r ↔ r.toNat = s.toNat := by
        rw [Cell.general.injEq, ← BitVec.toNat_inj, eq_comm]
      show (file.general.set r.toNat value r.isLt)[s.toNat] = _
      rw [Vector.getElem_set]
      simp only [hindex]
      rfl
    | special s => cases s <;> rfl
  | special r =>
    cases other with
    | general s => cases r <;> rfl
    | special s => cases r <;> cases s <;> rfl

namespace Cell

/-- A number stands for a general register. -/
def Numbered (index : Nat) : Cell → Prop
  | .general r => index = r.toNat
  | .special _ => False

/-- A text stands for a register. A special register has its name only. -/
def Spelled (name : String) : Cell → Prop
  | .general r => Register.Spells name r
  | .special r => name = r.name

def ofIndex? (index : Nat) : Option Cell :=
  (Register.ofIndex? index).map .general

def ofName? (name : String) : Option Cell :=
  ((SpecialRegister.ofName? name).map .special).or ((Register.ofName? name).map .general)

theorem ofIndex?_eq_some_iff (index : Nat) (cell : Cell) :
    ofIndex? index = some cell ↔ cell.Numbered index := by
  rw [ofIndex?, Option.map_eq_some_iff]
  simp only [Register.ofIndex?_eq_some_iff]
  cases cell with
  | general r => simp [Numbered]
  | special r => simp [Numbered]

theorem ofName?_eq_some_iff (name : String) (cell : Cell) :
    ofName? name = some cell ↔ cell.Spelled name := by
  have hgeneral (r : SpecialRegister) (h : SpecialRegister.ofName? name = some r) :
      Register.ofName? name = none := by
    rw [(SpecialRegister.ofName?_eq_some_iff name r).mp h, Register.ofName?_special]
  cases cell with
  | general r =>
    rw [Spelled, ← Register.ofName?_eq_some_iff, ofName?]
    cases hspecial : SpecialRegister.ofName? name with
    | some s => simp [hgeneral s hspecial]
    | none => simp
  | special r =>
    rw [Spelled, ← SpecialRegister.ofName?_eq_some_iff, ofName?]
    cases SpecialRegister.ofName? name <;> simp

instance (index : Nat) (cell : Cell) : Decidable (cell.Numbered index) :=
  decidable_of_iff _ (ofIndex?_eq_some_iff index cell)

instance (name : String) (cell : Cell) : Decidable (cell.Spelled name) :=
  decidable_of_iff _ (ofName?_eq_some_iff name cell)

end Cell

/-! ## Reads and writes of a cell -/

theorem read_toNat (file : RegisterFile) (r : Register) :
    file.read r.toNat = .ok (file.get (.general r)) :=
  dif_pos r.isLt

theorem write_toNat (file : RegisterFile) (r : Register) (value : Word) :
    file.write r.toNat value = .ok (file.store value (.general r)) :=
  dif_pos r.isLt

theorem write_eq (file : RegisterFile) (index : Nat) (value : Word) :
    file.write index value =
      match Cell.ofIndex? index with
      | some cell => .ok (file.store value cell)
      | none => .error (.outOfRange index) := by
  unfold Cell.ofIndex?
  cases hindex : Register.ofIndex? index with
  | some r =>
    rw [(Register.ofIndex?_eq_some_iff index r).mp hindex]
    exact file.write_toNat r value
  | none =>
    unfold Register.ofIndex? at hindex
    split at hindex
    · cases hindex
    · next hout => exact dif_neg hout

theorem readName_eq (file : RegisterFile) (name : String) :
    file.readName name =
      match Cell.ofName? name with
      | some cell => .ok (file.get cell)
      | none => .error (.unknownName name) := by
  unfold readName Register.resolve Cell.ofName?
  cases SpecialRegister.ofName? name with
  | some r => rfl
  | none =>
    cases Register.ofName? name with
    | some r => exact file.read_toNat r
    | none => rfl

theorem writeName_eq (file : RegisterFile) (name : String) (value : Word) :
    file.writeName name value =
      match Cell.ofName? name with
      | some cell => .ok (file.store value cell)
      | none => .error (.unknownName name) := by
  unfold writeName Register.resolve Cell.ofName?
  cases SpecialRegister.ofName? name with
  | some r => rfl
  | none =>
    cases Register.ofName? name with
    | some r => exact file.write_toNat r value
    | none => rfl

theorem readName_of_spelled (file : RegisterFile) {cell : Cell} {name : String}
    (h : cell.Spelled name) : file.readName name = .ok (file.get cell) := by
  rw [readName_eq, (Cell.ofName?_eq_some_iff name cell).mpr h]

theorem writeName_eq_error_iff (file : RegisterFile) (name : String) (value : Word)
    (fault : RegisterFault) :
    file.writeName name value = .error fault ↔
      (∀ cell : Cell, ¬ cell.Spelled name) ∧ fault = .unknownName name := by
  simp only [← Cell.ofName?_eq_some_iff]
  rw [writeName_eq]
  cases Cell.ofName? name with
  | some cell => simp
  | none => simp [eq_comm]

theorem write_eq_error_iff (file : RegisterFile) (index : Nat) (value : Word)
    (fault : RegisterFault) :
    file.write index value = .error fault ↔ 32 ≤ index ∧ fault = .outOfRange index := by
  unfold write
  by_cases hindex : index < 32
  · rw [dif_pos hindex]
    simp [hindex]
  · rw [dif_neg hindex]
    simp [Nat.le_of_not_lt hindex, eq_comm]

/-! ## Updates of a cell -/

/-- A write is about the register that it names, and all other updates about the program counter. -/
def Update.IsAbout (cell : Cell) : Update → Prop
  | .write index _ => cell.Numbered index
  | .writeName name _ => cell.Spelled name
  | .setPc _ | .setPcSlot _ | .advance | .jump _ => cell = .special .pc

/-- The value that a write gives a register, if it is about this register. -/
def Update.written? (cell : Cell) : Update → Option Word
  | .write index value => if cell.Numbered index then some value else none
  | .writeName name value => if cell.Spelled name then some value else none
  | .setPc _ | .setPcSlot _ | .advance | .jump _ => none

/-- The value of the last write to a register, by whatever number or text that stands for it. -/
def lastWritten? (updates : List Update) (cell : Cell) : Option Word :=
  updates.reverse.findSome? (Update.written? cell)

def Update.cell? : Update → Option Cell
  | .write index _ => Cell.ofIndex? index
  | .writeName name _ => Cell.ofName? name
  | .setPc _ | .setPcSlot _ | .advance | .jump _ => some (.special .pc)

theorem Update.cell?_eq_some_iff (update : Update) (cell : Cell) :
    update.cell? = some cell ↔ update.IsAbout cell := by
  cases update with
  | write index value => exact Cell.ofIndex?_eq_some_iff index cell
  | writeName name value => exact Cell.ofName?_eq_some_iff name cell
  | setPc address => simp [cell?, IsAbout, eq_comm]
  | setPcSlot slot => simp [cell?, IsAbout, eq_comm]
  | advance => simp [cell?, IsAbout, eq_comm]
  | jump offset => simp [cell?, IsAbout, eq_comm]

theorem Update.IsAbout.unique {update : Update} {cell other : Cell} (h : update.IsAbout cell)
    (hother : update.IsAbout other) : other = cell := by
  rw [← cell?_eq_some_iff] at h hother
  exact Option.some.inj (hother.symm.trans h)

theorem Update.written?_eq_none {update : Update} {cell : Cell} (h : ¬ update.IsAbout cell) :
    update.written? cell = none := by
  cases update with
  | write index value => exact if_neg h
  | writeName name value => exact if_neg h
  | setPc address => rfl
  | setPcSlot slot => rfl
  | advance => rfl
  | jump offset => rfl

/-- An update gives a value to the cell that it is about, and this is the value written unless the
cell is the program counter. An update that is about no cell is refused. -/
theorem apply_cases (file : RegisterFile) (update : Update) :
    (∃ cell value, update.IsAbout cell ∧ file.apply update = file.store value cell ∧
      (cell ≠ .special .pc → update.written? cell = some value)) ∨
    ((∀ cell, ¬ update.IsAbout cell) ∧ file.apply update = file) := by
  -- All updates other than writes come down to a new program counter.
  have hmoved (address : Address) (hpc : update.IsAbout (.special .pc))
      (happly : file.apply update = file.setPc address) :
      ∃ cell value, update.IsAbout cell ∧ file.apply update = file.store value cell ∧
        (cell ≠ .special .pc → update.written? cell = some value) :=
    ⟨.special .pc, address, hpc, happly, fun h => absurd rfl h⟩
  simp only [← Update.cell?_eq_some_iff] at hmoved ⊢
  cases update with
  | write index value =>
    rw [apply, write_eq, Update.cell?]
    cases hcell : Cell.ofIndex? index with
    | none => exact .inr ⟨fun _ => Option.some_ne_none _ |>.symm, rfl⟩
    | some cell =>
      have habout := (Cell.ofIndex?_eq_some_iff index cell).mp hcell
      exact .inl ⟨cell, value, rfl, rfl, fun _ => if_pos habout⟩
  | writeName name value =>
    rw [apply, writeName_eq, Update.cell?]
    cases hcell : Cell.ofName? name with
    | none => exact .inr ⟨fun _ => Option.some_ne_none _ |>.symm, rfl⟩
    | some cell =>
      have habout := (Cell.ofName?_eq_some_iff name cell).mp hcell
      exact .inl ⟨cell, value, rfl, rfl, fun _ => if_pos habout⟩
  | setPc address => exact .inl (hmoved address rfl rfl)
  | setPcSlot slot => exact .inl (hmoved (file.addressOf slot) rfl rfl)
  | advance => exact .inl (hmoved (file.pc + 4) rfl rfl)
  | jump offset =>
    obtain ⟨-, hjump⟩ | ⟨-, hjump⟩ := file.jump_cases offset
    · exact .inl (hmoved _ rfl (congrArg Prod.fst hjump))
    · exact .inl (hmoved _ rfl (congrArg Prod.fst hjump))

/-- An update of one cell leaves the others as they were. -/
theorem get_apply_of_ne (file : RegisterFile) {update : Update} {cell other : Cell}
    (h : update.IsAbout cell) (hne : other ≠ cell) :
    (file.apply update).get other = file.get other := by
  obtain ⟨set, value, habout, happly, -⟩ | ⟨hnone, -⟩ := file.apply_cases update
  · rw [happly, get_store, h.unique habout, if_neg hne]
  · exact absurd h (hnone cell)

theorem get_apply (file : RegisterFile) (update : Update) {cell : Cell}
    (hpc : cell ≠ .special .pc) :
    (file.apply update).get cell = (update.written? cell).getD (file.get cell) := by
  by_cases h : update.IsAbout cell
  · obtain ⟨set, value, habout, happly, hwritten⟩ | ⟨hnone, -⟩ := file.apply_cases update
    · rw [h.unique habout] at happly hwritten
      rw [happly, get_store, if_pos rfl, hwritten hpc, Option.getD_some]
    · exact absurd h (hnone cell)
  · rw [Update.written?_eq_none h, Option.getD_none]
    obtain ⟨set, value, habout, -⟩ | ⟨-, happly⟩ := file.apply_cases update
    · apply file.get_apply_of_ne habout
      rintro rfl
      exact h habout
    · rw [happly]

/-- A cell holds the value of the last write to it, and what it held at first if there was none. -/
theorem get_run (file : RegisterFile) (updates : List Update) {cell : Cell}
    (hpc : cell ≠ .special .pc) :
    (file.run updates).get cell = (lastWritten? updates cell).getD (file.get cell) := by
  induction updates generalizing file with
  | nil => rfl
  | cons update updates ih =>
    have hstep : file.run (update :: updates) = (file.apply update).run updates := rfl
    have hlast : lastWritten? (update :: updates) cell =
        (lastWritten? updates cell).or (update.written? cell) := by
      simp [lastWritten?, List.findSome?_append]
    -- The first update counts only for what the later ones do not write.
    rw [hstep, ih, file.get_apply update hpc, hlast, Option.getD_or]

theorem get_init (base : Address) {cell : Cell} (hpc : cell ≠ .special .pc) :
    (init base).get cell = 0 := by
  cases cell with
  | general r =>
    have hr := r.isLt
    show (Vector.replicate 32 (0 : Word))[r.toNat] = 0
    rw [Vector.getElem_replicate]
  | special r =>
    cases r with
    | pc => exact absurd rfl hpc
    | hi => rfl
    | lo => rfl

theorem get_run_init (base : Address) (updates : List Update) {cell : Cell}
    (hpc : cell ≠ .special .pc) :
    ((init base).run updates).get cell = (lastWritten? updates cell).getD 0 := by
  rw [get_run (init base) updates hpc, get_init base hpc]

theorem jump_eq_setPc_of_refused {file : RegisterFile} {offset : Int} {fault : RegisterFault}
    (h : (file.jump offset).2 = some fault) : (file.jump offset).1 = file.setPc file.base := by
  obtain ⟨-, hjump⟩ | ⟨-, hjump⟩ := file.jump_cases offset
  · rw [hjump]
  · rw [hjump] at h
    cases h

/-! ## Files over time -/

/-- What a file at a base address holds after updates, and what an update does to it. -/
structure Remembers (base : Address) (updates : List Update) (file : RegisterFile) : Prop where
  base_eq : file.base = base
  /-- A register other than the program counter has the value of the last write to it. -/
  read_eq (r : Register) :
    file.read r.toNat = .ok ((lastWritten? updates (.general r)).getD 0)
  readName_eq (cell : Cell) (name : String) : cell ≠ .special .pc → cell.Spelled name →
    file.readName name = .ok ((lastWritten? updates cell).getD 0)
  /-- The program counter is read as a signed number. -/
  readName_pc : ∃ value, file.readName "$pc" = .ok value ∧
    value.toInt = (file.pc.toNat : Int).bmod (2 ^ 32)
  get_apply_of_ne (update : Update) (cell other : Cell) : update.IsAbout cell → other ≠ cell →
    (file.apply update).get other = file.get other
  write_eq_error_iff (index : Nat) (value : Word) (fault : RegisterFault) :
    file.write index value = .error fault ↔ 32 ≤ index ∧ fault = .outOfRange index
  writeName_eq_error_iff (name : String) (value : Word) (fault : RegisterFault) :
    file.writeName name value = .error fault ↔
      (∀ cell : Cell, ¬ cell.Spelled name) ∧ fault = .unknownName name
  /-- A refused write leaves no trace. -/
  apply_write (index : Nat) (value : Word) (fault : RegisterFault) :
    file.write index value = .error fault → file.apply (.write index value) = file
  apply_writeName (name : String) (value : Word) (fault : RegisterFault) :
    file.writeName name value = .error fault → file.apply (.writeName name value) = file
  /-- A refused jump moves the program counter to the base and does nothing else. -/
  jump_eq (offset : Int) (fault : RegisterFault) : (file.jump offset).2 = some fault →
    (file.jump offset).1 = { file with pc := base }

/-- Whatever updates are made, a register holds what was last written to it by any of the ways to
name it, and an update changes no other register. -/
theorem remembers_run (base : Address) (updates : List Update) :
    Remembers base updates ((init base).run updates) where
  base_eq := base_run (init base) updates
  read_eq r := by rw [read_toNat, get_run_init base updates (by simp)]
  readName_eq cell name hpc hspelled := by
    rw [readName_of_spelled _ hspelled, get_run_init base updates hpc]
  readName_pc := ⟨_, rfl, BitVec.toInt_eq_toNat_bmod _⟩
  get_apply_of_ne _ _ _ := get_apply_of_ne _
  write_eq_error_iff := write_eq_error_iff _
  writeName_eq_error_iff := writeName_eq_error_iff _
  apply_write _ _ _ := congrArg (orKeep _)
  apply_writeName _ _ _ := congrArg (orKeep _)
  jump_eq offset fault h :=
    (jump_eq_setPc_of_refused h).trans (congrArg (setPc _) (base_run (init base) updates))

/-- Register 8 is written in three ways, and two writes and a jump are refused. -/
theorem remembers_run_aliases :
    let updates : List Update := [.writeName "$t0" 5, .writeName "$hi" 6, .write 8 7,
      .writeName "$008" 0xffffffff, .writeName "$32" 1, .writeName "$t1" 2, .write 32 3,
      .writeName "$pc" 0x80000000, .jump (-0x20000000)]
    let file := (init 0x00400000).run updates
    file.read 8 = .ok 0xffffffff ∧ file.readName "$0008" = .ok 0xffffffff ∧
      file.readName "$hi" = .ok 6 ∧ file.readName "$lo" = .ok 0 ∧
      (file.jump (-1)).1 = { file with pc := 0x00400000 } := by
  intro updates file
  have h := remembers_run 0x00400000 updates
  refine ⟨h.read_eq 8, h.readName_eq (.general 8) "$0008" (by decide) (by decide), ?_, ?_, ?_⟩
  · exact h.readName_eq (.special .hi) "$hi" (by decide) (by decide)
  · exact h.readName_eq (.special .lo) "$lo" (by decide) (by decide)
  · exact h.jump_eq (-1) (.jumpBelowBase (-1) 0x00400000) (by decide)

end Mips.RegisterFile
