import Mips.Command.List
import Mips.Proofs.Command.Settings
import Mips.Proofs.Command.Steps

/-! # What commands load

* `ReadFile.Defines`: the instruction set of a definition file, or the built-in one.
* `ReadFile.Configures`: the settings of a settings file, or the defaults.
* `Command.answer_loadInstructions_eq_ok_iff` and the like: the loading steps of a command only read,
  and they give what these rules say. -/

namespace Mips
set_option autoImplicit false

def ReadFile.Defines (read : ReadFile) (instructions : InstructionSet) : Option String → Prop
  | none => instructions = .standard
  | some path => ∃ text, read.text path = .ok text ∧ InstructionSet.parse text = .ok instructions

def ReadFile.Configures (read : ReadFile) (settings : Settings) : Option String → Prop
  | none => settings = ⟨defaultBase, .little, .firstFault⟩
  | some path => ∃ text value, read.text path = .ok text ∧ value.IsDocument text ∧
      settings.DescribedBy value

namespace Command

theorem silent_loadInstructions (definitions : Option String) :
    (loadInstructions definitions).Silent := by
  cases definitions with
  | none => exact silent_pure _
  | some path => exact (silent_readText path _).bind fun _ => silent_ofExcept _

theorem answer_loadInstructions_eq_ok_iff (definitions : Option String) (files : Files)
    (instructions : InstructionSet) :
    (loadInstructions definitions).answer files = .ok instructions ↔
      files.read.Defines instructions definitions := by
  cases definitions with
  | none =>
    rw [loadInstructions, answer_pure, Except.ok.injEq]
    exact eq_comm
  | some path =>
    rw [loadInstructions, (silent_readText path _).answer_bind, bind_eq_ok_iff]
    simp only [answer_readText, answer_ofExcept, mapError_eq_ok_iff]
    rfl

theorem silent_loadLines (path : String) : (loadLines path).Silent :=
  (silent_readText path _).bind fun _ => silent_pure _

theorem answer_loadLines_eq_ok_iff (path : String) (files : Files) (lines : List String) :
    (loadLines path).answer files = .ok lines ↔
      ∃ text, files.read.text path = .ok text ∧ Text.lines text = lines := by
  rw [loadLines, (silent_readText path _).answer_bind, bind_eq_ok_iff]
  simp only [answer_readText, answer_pure, mapError_eq_ok_iff, Except.ok.injEq]

end Command

theorem AssembleOptions.silent_loadSettings (config : Option String) :
    (loadSettings config).Silent := by
  cases config with
  | none => exact Command.silent_pure _
  | some path => exact (Command.silent_readText path _).bind fun _ => Command.silent_ofOption _ _

theorem AssembleOptions.answer_loadSettings_eq_ok_iff (config : Option String) (files : Files)
    (settings : Settings) :
    (loadSettings config).answer files = .ok settings ↔ files.read.Configures settings config := by
  cases config with
  | none =>
    rw [loadSettings, Command.answer_pure, Except.ok.injEq]
    exact eq_comm
  | some path =>
    rw [loadSettings, (Command.silent_readText path _).answer_bind, bind_eq_ok_iff]
    simp only [Command.answer_readText, mapError_eq_ok_iff, Command.answer_ofOption_eq_ok_iff,
      Settings.parse?_eq_some_iff, ReadFile.Configures, exists_and_left]

namespace ListOptions

theorem silent_loadProgram (target : Target) (source : String) :
    (loadProgram target source).Silent :=
  (Command.silent_loadLines source).bind fun _ => Command.silent_ofExcept _

theorem answer_loadProgram_of_text {files : Files} {source text : String}
    (h : files.read.text source = .ok text) (target : Target) :
    (loadProgram target source).answer files =
      (target.assemble (Text.lines text)).mapError .line := by
  have hlines : (Command.loadLines source).answer files = .ok (Text.lines text) :=
    (Command.answer_loadLines_eq_ok_iff source files _).mpr ⟨text, h, rfl⟩
  rw [loadProgram, (Command.silent_loadLines source).answer_bind, hlines]
  exact Command.answer_ofExcept _ files

theorem answer_loadProgram_eq_ok_iff (target : Target) (source : String) (files : Files)
    (program : Program) :
    (loadProgram target source).answer files = .ok program ↔
      ∃ text, files.read.text source = .ok text ∧
        target.assemble (Text.lines text) = .ok program := by
  rw [loadProgram, (Command.silent_loadLines source).answer_bind, bind_eq_ok_iff]
  simp only [Command.answer_loadLines_eq_ok_iff, Command.answer_ofExcept, mapError_eq_ok_iff]
  constructor
  · rintro ⟨_, ⟨text, htext, rfl⟩, hprogram⟩
    exact ⟨text, htext, hprogram⟩
  · rintro ⟨text, htext, hprogram⟩
    exact ⟨_, ⟨text, htext, rfl⟩, hprogram⟩

end ListOptions

end Mips
