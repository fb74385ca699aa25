import Mips.Proofs.Command.Loading
import Mips.Proofs.Program.Bytes
import Mips.Proofs.Program.Reporting

/-! # Runs that fail leave nothing behind

A run of a command either fails, with nothing on the standard output and all files as they were, or
it delivers all of its output, to the standard output or to the one file that was asked for.

* `Outcome.Atomic`: this rule, for any outcome. Both commands read first and write last, so it holds
  of their runs (`Command.Atomic.run`).
* `AssembleOptions.Assembles`, `ListOptions.Prints`: what a run makes of the files that it reads.
* `AssembleOptions.Delivers`, `ListOptions.Delivers`: what it leaves behind.
* `Outcome.atomic_of_run`: all this together. -/

namespace Mips
set_option autoImplicit false

/-! ## Outcomes -/

/-- A run that fails prints nothing and changes no file, and no run changes the content of a place
other than the one that the named path leads to. -/
structure Outcome.Atomic (outcome : Outcome) (before : Files) (named : Option String) : Prop where
  stdout_of_failure : outcome.exit ≠ 0 → outcome.stdout = ""
  files_of_failure : outcome.exit ≠ 0 → outcome.files = before
  named_of_change : ∀ place, outcome.files.content? place ≠ before.content? place →
    ∃ path, named = some path ∧ before.walk path = .ok place

/-- Two outcomes that differ at most in how a failure is reported. -/
structure Outcome.SameUnlessFailed (a b : Outcome) : Prop where
  exit_eq : a.exit = b.exit
  stdout_eq : a.stdout = b.stdout
  files_eq : a.files = b.files
  stderr_eq : a.exit = 0 → a.stderr = b.stderr

namespace Command

theorem run_of_ok {command : Command Unit} {files : Files} {after : Console}
    (h : command.exec ⟨files, "", ""⟩ = (.ok (), after)) :
    command.run files = ⟨0, after.stdout, after.stderr, after.files⟩ := by
  rw [run, h]
  rfl

theorem Atomic.run_of_error {command : Command Unit} {named : Option String}
    (hatomic : command.Atomic named) {files : Files} {after : Console} {fault : CommandFault}
    (h : command.exec ⟨files, "", ""⟩ = (.error fault, after)) :
    ∃ stderr, command.run files = ⟨1, "", stderr, files⟩ := by
  have hsame := hatomic.of_error h
  refine ⟨after.stderr ++ fault.text, ?_⟩
  rw [run, h, Outcome.ofExec, hsame.files_eq, hsame.stdout_eq]

theorem exit_run_eq_zero_iff (command : Command Unit) (files : Files) :
    (command.run files).exit = 0 ↔ ∃ after, command.exec ⟨files, "", ""⟩ = (.ok (), after) := by
  rw [run]
  rcases command.exec ⟨files, "", ""⟩ with ⟨fault | result, after⟩
  · simp [Outcome.ofExec]
  · simp [Outcome.ofExec]

theorem Atomic.run {command : Command Unit} {named : Option String}
    (hatomic : command.Atomic named) (files : Files) :
    (command.run files).Atomic files named := by
  rcases h : command.exec ⟨files, "", ""⟩ with ⟨fault | result, after⟩
  · obtain ⟨stderr, hrun⟩ := hatomic.run_of_error h
    rw [hrun]
    exact ⟨fun _ => rfl, fun _ => rfl, fun place hplace => absurd rfl hplace⟩
  · rw [run_of_ok h]
    exact ⟨fun hexit => absurd rfl hexit, fun hexit => absurd rfl hexit, hatomic.of_ok h⟩

theorem Atomic.sameUnlessFailed_run {a b : Command Unit} {named : Option String}
    (ha : a.Atomic named) (hb : b.Atomic named) {files : Files}
    (h : ∀ after, a.exec ⟨files, "", ""⟩ = (.ok (), after) ↔
      b.exec ⟨files, "", ""⟩ = (.ok (), after)) :
    (a.run files).SameUnlessFailed (b.run files) := by
  rcases hexec : a.exec ⟨files, "", ""⟩ with ⟨fault | result, after⟩
  · obtain ⟨stderr, hrun⟩ := ha.run_of_error hexec
    rcases hexec' : b.exec ⟨files, "", ""⟩ with ⟨fault' | result, after'⟩
    · obtain ⟨stderr', hrun'⟩ := hb.run_of_error hexec'
      rw [hrun, hrun']
      exact ⟨rfl, rfl, rfl, fun hexit => by cases hexit⟩
    · have hok := (h after').mpr hexec'
      rw [hexec] at hok
      cases hok
  · rw [run_of_ok hexec, run_of_ok ((h after).mp hexec)]
    exact ⟨rfl, rfl, rfl, fun _ => rfl⟩

end Command

/-! ## Listing -/

namespace ListOptions

/-- The files that the options name can be read, and the text is what they ask for. -/
def Prints (options : ListOptions) (read : ReadFile) (text : String) : Prop :=
  ∃ instructions, read.Defines instructions options.definitions ∧
    match options.subject with
    | .bytecode source showSource => ∃ content program, read.text source = .ok content ∧
        Target.assemble ⟨instructions, options.base⟩ (Text.lines content) = .ok program ∧
        text = listingText (program.listing instructions) showSource options.format
    | .instructions => text = instructionsText instructions options.format
    | .registers => text = registersText (RegisterFile.init options.base) options.format
    | .labels source => ∃ content program, read.text source = .ok content ∧
        Target.assemble ⟨instructions, options.base⟩ (Text.lines content) = .ok program ∧
        text = labelsText program.placedLabels options.format

/-- What is left after a run that made a text. -/
structure Delivers (options : ListOptions) (before : Files) (text : String) (outcome : Outcome) :
    Prop where
  silent : outcome.stderr = ""
  printed : options.out = none → outcome.stdout = text ∧ outcome.files = before
  written : ∀ path, options.out = some path →
    outcome.stdout = "" ∧ outcome.files.read path = .ok text.toUTF8

theorem silent_text (options : ListOptions) : options.text.Silent := by
  refine (Command.silent_loadInstructions options.definitions).bind ?_
  intro instructions
  cases options.subject with
  | bytecode source showSource =>
    exact (silent_loadProgram _ source).bind fun _ => Command.silent_pure _
  | instructions => exact Command.silent_pure _
  | registers => exact Command.silent_pure _
  | labels source => exact (silent_loadProgram _ source).bind fun _ => Command.silent_pure _

theorem answer_text_eq_ok_iff (options : ListOptions) (files : Files) (text : String) :
    options.text.answer files = .ok text ↔ options.Prints files.read text := by
  have hprogram {α : Type} (target : Target) (source : String) (f : Program → α) (value : α) :
      (loadProgram target source >>= fun program => pure (f program)).answer files = .ok value ↔
        ∃ content program, files.read.text source = .ok content ∧
          target.assemble (Text.lines content) = .ok program ∧ value = f program := by
    rw [(silent_loadProgram target source).answer_bind, bind_eq_ok_iff]
    simp only [answer_loadProgram_eq_ok_iff, Command.answer_pure, Except.ok.injEq]
    constructor
    · rintro ⟨program, ⟨content, hcontent, hassemble⟩, hvalue⟩
      exact ⟨content, program, hcontent, hassemble, hvalue.symm⟩
    · rintro ⟨content, program, hcontent, hassemble, hvalue⟩
      exact ⟨program, ⟨content, hcontent, hassemble⟩, hvalue.symm⟩
  rw [ListOptions.text, (Command.silent_loadInstructions _).answer_bind, bind_eq_ok_iff, Prints]
  simp only [Command.answer_loadInstructions_eq_ok_iff]
  cases options.subject with
  | bytecode source showSource => simp only [hprogram]
  | instructions => simp only [Command.answer_pure, Except.ok.injEq, eq_comm]
  | registers => simp only [Command.answer_pure, Except.ok.injEq, eq_comm]
  | labels source => simp only [hprogram]

theorem atomic_command (options : ListOptions) : options.command.Atomic options.out :=
  options.silent_text.keepsOutput.atomic_bind fun _ => Command.atomic_deliver _ _ _

theorem exec_command_eq_ok_iff (options : ListOptions) (files : Files) (after : Console) :
    options.command.exec ⟨files, "", ""⟩ = (.ok (), after) ↔
      ∃ text, options.Prints files.read text ∧
        (Command.deliver text.toUTF8 text options.out).exec ⟨files, "", ""⟩ = (.ok (), after) := by
  rw [command, options.silent_text.exec_bind_eq_ok_iff]
  simp only [answer_text_eq_ok_iff]

theorem exit_run_eq_zero_iff (options : ListOptions) (files : Files) :
    (options.run files).exit = 0 ↔
      ∃ text, options.Prints files.read text ∧
        ∀ path, options.out = some path →
          ∃ written, files.write path text.toUTF8 = .ok written := by
  rw [run, Command.exit_run_eq_zero_iff]
  simp only [exec_command_eq_ok_iff]
  rw [exists_comm]
  simp only [exists_and_left, Command.exists_exec_deliver_iff]

theorem delivers_run {options : ListOptions} {files : Files}
    (hexit : (options.run files).exit = 0) :
    ∃ text, options.Prints files.read text ∧ options.Delivers files text (options.run files) := by
  obtain ⟨after, hexec⟩ := (Command.exit_run_eq_zero_iff _ _).mp hexit
  obtain ⟨text, htext, hdeliver⟩ := (options.exec_command_eq_ok_iff files after).mp hexec
  obtain ⟨hstderr, hprinted, hwritten⟩ := Command.delivered_of_exec hdeliver
  rw [String.empty_append] at hprinted
  refine ⟨text, htext, ?_⟩
  rw [run, Command.run_of_ok hexec]
  exact ⟨hstderr, hprinted, hwritten⟩

end ListOptions

/-! ## Assembling -/

namespace AssembleOptions

/-- The files that the options name can be read, and the lines of the source are assembled as a
program, at the base address of the options or else that of the settings. -/
structure Assembles (options : AssembleOptions) (read : ReadFile) (settings : Settings)
    (lines : List String) (program : Program) : Prop where
  configures : read.Configures settings options.config
  lines_eq : ∃ source, read.text options.input = .ok source ∧ Text.lines source = lines
  program_eq : ∃ instructions, read.Defines instructions options.definitions ∧
    Target.assemble ⟨instructions, options.base.getD settings.base⟩ lines = .ok program

/-- A program is made or not, however its faults are reported. -/
theorem exec_assemble_eq_ok_iff (target : Target) (lines : List String) (reporting : Reporting)
    (console after : Console) (program : Program) :
    (assemble target lines reporting).exec console = (.ok program, after) ↔
      target.assemble lines = .ok program ∧ after = console := by
  cases reporting with
  | firstFault =>
    rw [assemble, Command.exec_ofExcept, Prod.mk.injEq, mapError_eq_ok_iff]
    exact and_congr_right fun _ => eq_comm
  | allFaults =>
    have hsame : target.assembleAll lines = .ok program ↔ target.assemble lines = .ok program := by
      rw [target.assembleAll_eq_ok_iff, target.assemble_eq_ok_iff]
    rw [assemble, ← hsame]
    cases target.assembleAll lines with
    | ok found => simp [@eq_comm _ after]
    | error diagnostics =>
      rw [Command.exec_bind, Command.exec_forM_printError]
      simp

theorem keepsOutput_assemble (target : Target) (lines : List String) (reporting : Reporting) :
    (assemble target lines reporting).KeepsOutput := by
  cases reporting with
  | firstFault => exact (Command.silent_ofExcept _).keepsOutput
  | allFaults =>
    rw [assemble]
    cases target.assembleAll lines with
    | ok program => exact (Command.silent_pure program).keepsOutput
    | error diagnostics =>
      exact (Command.keepsOutput_forM_printError _ _).bind fun _ =>
        (Command.silent_fail _).keepsOutput

/-- Everything before the delivery keeps the output. -/
theorem atomic_command (options : AssembleOptions) : options.command.Atomic options.output := by
  refine (silent_loadSettings _).keepsOutput.atomic_bind fun settings => ?_
  refine (Command.silent_loadInstructions _).keepsOutput.atomic_bind fun instructions => ?_
  refine (Command.silent_loadLines _).keepsOutput.atomic_bind fun lines => ?_
  refine (keepsOutput_assemble _ _ _).atomic_bind fun program => ?_
  exact (Command.keepsOutput_forM_printError _ _).atomic_bind fun _ => Command.atomic_deliver _ _ _

/-- The warnings about a program, one after the other. -/
def warnings (program : Program) : String :=
  String.join (program.truncatedSlots.map warning)

theorem exec_command_eq_ok_iff (options : AssembleOptions) (files : Files) (after : Console) :
    options.command.exec ⟨files, "", ""⟩ = (.ok (), after) ↔
      ∃ settings lines program, options.Assembles files.read settings lines program ∧
        (Command.deliver (program.bytes (options.order.getD settings.order)).toByteArray
          program.render options.output).exec ⟨files, "", warnings program⟩ = (.ok (), after) := by
  simp only [command, (silent_loadSettings _).exec_bind_eq_ok_iff, answer_loadSettings_eq_ok_iff,
    (Command.silent_loadInstructions _).exec_bind_eq_ok_iff,
    Command.answer_loadInstructions_eq_ok_iff, (Command.silent_loadLines _).exec_bind_eq_ok_iff,
    Command.answer_loadLines_eq_ok_iff]
  constructor
  · rintro ⟨settings, hsettings, instructions, hinstructions, lines, hlines, hrest⟩
    obtain ⟨program, _, hmade, hrest⟩ := (Command.exec_bind_eq_ok_iff _ _ _ _ _).mp hrest
    obtain ⟨hassemble, rfl⟩ := (exec_assemble_eq_ok_iff _ _ _ _ _ _).mp hmade
    rw [Command.exec_bind, Command.exec_forM_printError] at hrest
    exact ⟨settings, lines, program, ⟨hsettings, hlines, instructions, hinstructions, hassemble⟩,
      hrest⟩
  · rintro ⟨settings, lines, program, ⟨hsettings, hlines, instructions, hinstructions, hassemble⟩,
      hrest⟩
    refine ⟨settings, hsettings, instructions, hinstructions, lines, hlines, ?_⟩
    refine (Command.exec_bind_eq_ok_iff _ _ _ _ _).mpr ⟨program, _,
      (exec_assemble_eq_ok_iff _ _ _ _ _ _).mpr ⟨hassemble, rfl⟩, ?_⟩
    rw [Command.exec_bind, Command.exec_forM_printError]
    exact hrest

/-! ## Warnings -/

/-- The warning for a slot with a field that was cut. -/
def warningText (slot : Nat) (field : NarrowField) : String :=
  "warning: line " ++ toString (slot + 1) ++ ": operand truncated (FieldOverflow(" ++
    field.name ++ "))\n"

/-- The number of a slot, and the field of it that was cut. -/
def cutField? (slot : Slot) : Option (Nat × NarrowField) :=
  slot.encoding.truncated.map (slot.statement.slot, ·)

theorem map_warning_filter (slots : List Slot) :
    (slots.filter (·.encoding.truncated.isSome)).map warning =
      (slots.filterMap cutField?).map fun cut => warningText cut.1 cut.2 := by
  induction slots with
  | nil => rfl
  | cons slot slots ih =>
    cases hcut : slot.encoding.truncated with
    | none =>
      rw [List.filter_cons_of_neg (by simp [hcut]),
        List.filterMap_cons_none (by simp [cutField?, hcut]), ih]
    | some field =>
      have hwarning : warning slot = warningText slot.statement.slot field := by
        rw [warning, hcut]
        rfl
      have hfield : cutField? slot = some (slot.statement.slot, field) := by
        rw [cutField?, hcut]
        rfl
      rw [List.filter_cons_of_pos (by simp [hcut]), List.filterMap_cons_some hfield,
        List.map_cons, List.map_cons, ih, hwarning]

/-- One warning for each slot with an operand that was cut, in the order of the slots. -/
def Warns (program : Program) (text : String) : Prop :=
  ∃ cuts : List (Nat × NarrowField),
    cuts.Pairwise (fun a b => a.1 < b.1) ∧
    (∀ slot field, (slot, field) ∈ cuts ↔
      program.slots[slot]?.bind (·.encoding.truncated) = some field) ∧
    text = String.join (cuts.map fun cut => warningText cut.1 cut.2)

theorem warns_warnings {target : Target} {lines : List String} {program : Program}
    (h : target.Assembles lines program) : Warns program (warnings program) := by
  refine ⟨program.slots.filterMap cutField?, ?_, ?_, ?_⟩
  · have hslots : program.slots.Pairwise fun a b => a.statement.slot < b.statement.slot := by
      have hpairwise := Statement.pairwise_parseLines lines
      rw [← h.statements_eq, Program.statements, List.pairwise_map] at hpairwise
      exact hpairwise
    refine hslots.filterMap cutField? ?_
    intro a b hab cut hcut other hother
    obtain ⟨_, _, rfl⟩ := Option.map_eq_some_iff.mp hcut
    obtain ⟨_, _, rfl⟩ := Option.map_eq_some_iff.mp hother
    exact hab
  · intro k field
    simp only [List.mem_filterMap, cutField?, Option.map_eq_some_iff, Prod.mk.injEq,
      Option.bind_eq_some_iff]
    constructor
    · intro hcut
      obtain ⟨slot, hmem, field, hfield, hk, rfl⟩ := hcut
      obtain ⟨i, hi⟩ := List.getElem?_of_mem hmem
      rw [← hk, h.slot_of_getElem? hi]
      exact ⟨slot, hi, hfield⟩
    · intro hcut
      obtain ⟨slot, hslot, hfield⟩ := hcut
      exact ⟨slot, List.mem_of_getElem? hslot, field, hfield, h.slot_of_getElem? hslot, rfl⟩
  · rw [warnings, Program.truncatedSlots, map_warning_filter]

/-! ## Delivery -/

/-- What is left after a run that assembled a program from lines. -/
structure Delivers (options : AssembleOptions) (before : Files) (order : ByteOrder)
    (lines : List String) (program : Program) (outcome : Outcome) : Prop where
  warns : Warns program outcome.stderr
  printed : options.output = none → outcome.stdout = program.render ∧ outcome.files = before
  written : ∀ path, options.output = some path →
    outcome.stdout = "" ∧
      outcome.files.read path = .ok (program.bytes order).toByteArray ∧
      (program.bytes order).length = 4 * lines.length

theorem exit_run_eq_zero_iff (options : AssembleOptions) (files : Files) :
    (options.run files).exit = 0 ↔
      ∃ settings lines program, options.Assembles files.read settings lines program ∧
        ∀ path, options.output = some path → ∃ written,
          files.write path (program.bytes (options.order.getD settings.order)).toByteArray =
            .ok written := by
  rw [run, Command.exit_run_eq_zero_iff]
  simp only [exec_command_eq_ok_iff]
  constructor
  · rintro ⟨after, settings, lines, program, hassembles, hdeliver⟩
    exact ⟨settings, lines, program, hassembles,
      (Command.exists_exec_deliver_iff _ _ _ _).mp ⟨after, hdeliver⟩⟩
  · rintro ⟨settings, lines, program, hassembles, hwritable⟩
    obtain ⟨after, hdeliver⟩ :=
      (Command.exists_exec_deliver_iff _ program.render _ ⟨files, "", warnings program⟩).mpr hwritable
    exact ⟨after, settings, lines, program, hassembles, hdeliver⟩

theorem delivers_run {options : AssembleOptions} {files : Files}
    (hexit : (options.run files).exit = 0) :
    ∃ settings lines program, options.Assembles files.read settings lines program ∧
      options.Delivers files (options.order.getD settings.order) lines program
        (options.run files) := by
  obtain ⟨after, hexec⟩ := (Command.exit_run_eq_zero_iff _ _).mp hexit
  obtain ⟨settings, lines, program, hassembles, hdeliver⟩ :=
    (options.exec_command_eq_ok_iff files after).mp hexec
  obtain ⟨hstderr, hprinted, hwritten⟩ := Command.delivered_of_exec hdeliver
  rw [String.empty_append] at hprinted
  obtain ⟨instructions, -, hprogram⟩ := hassembles.program_eq
  have htarget := (Target.assemble_eq_ok_iff _ _ _).mp hprogram
  have hlength : (program.bytes (options.order.getD settings.order)).length = 4 * lines.length := by
    rw [Program.bytes_eq_flatMap_words, Word.length_flatMap_bytes, Program.words, List.length_map,
      htarget.length_slots]
  refine ⟨settings, lines, program, hassembles, ?_⟩
  rw [run, Command.run_of_ok hexec]
  refine ⟨?_, hprinted, ?_⟩
  · rw [hstderr]
    exact warns_warnings htarget
  · intro path hpath
    exact ⟨(hwritten path hpath).1, (hwritten path hpath).2, hlength⟩

theorem sameUnlessFailed_keepGoing (options : AssembleOptions) (files : Files) :
    (options.run files).SameUnlessFailed ({ options with keepGoing := true }.run files) := by
  have hassembles (settings : Settings) (lines : List String) (program : Program) :
      options.Assembles files.read settings lines program ↔
        Assembles { options with keepGoing := true } files.read settings lines program :=
    ⟨fun h => ⟨h.configures, h.lines_eq, h.program_eq⟩,
      fun h => ⟨h.configures, h.lines_eq, h.program_eq⟩⟩
  refine options.atomic_command.sameUnlessFailed_run
    (atomic_command { options with keepGoing := true }) ?_
  intro after
  rw [exec_command_eq_ok_iff, exec_command_eq_ok_iff]
  simp only [hassembles]

end AssembleOptions

/-! ## Both commands -/

/-- A run that fails prints nothing and leaves all files as they were, and a run that does not
changes at most the file that it was asked to write. The assemble command succeeds exactly if its
source assembles and its output can be written, where an option goes before the settings file, and
the file before the defaults. It then warns of each operand that was cut, and delivers the bytes of
the program to the file or prints the program. Going on after a fault changes only how a failure is
reported. -/
theorem Outcome.atomic_of_run (files : Files) :
    (∀ options : ListOptions,
      (options.run files).Atomic files options.out ∧
      ((options.run files).exit = 0 ↔
        ∃ text, options.Prints files.read text ∧
          ∀ path, options.out = some path →
            ∃ written, files.write path text.toUTF8 = .ok written) ∧
      ((options.run files).exit = 0 →
        ∃ text, options.Prints files.read text ∧
          options.Delivers files text (options.run files))) ∧
    ∀ options : AssembleOptions,
      (options.run files).Atomic files options.output ∧
      ((options.run files).exit = 0 ↔
        ∃ settings lines program, options.Assembles files.read settings lines program ∧
          ∀ path, options.output = some path → ∃ written,
            files.write path (program.bytes (options.order.getD settings.order)).toByteArray =
              .ok written) ∧
      ((options.run files).exit = 0 →
        ∃ settings lines program, options.Assembles files.read settings lines program ∧
          options.Delivers files (options.order.getD settings.order) lines program
            (options.run files)) ∧
      (options.run files).SameUnlessFailed ({ options with keepGoing := true }.run files) := by
  refine ⟨?_, ?_⟩
  · intro options
    exact ⟨options.atomic_command.run files, options.exit_run_eq_zero_iff files,
      ListOptions.delivers_run⟩
  · intro options
    exact ⟨options.atomic_command.run files, options.exit_run_eq_zero_iff files,
      AssembleOptions.delivers_run, options.sameUnlessFailed_keepGoing files⟩

/-- A shift by 40 is cut: the run warns of it, and writes the word all the same, in the byte order of
the settings file. -/
theorem Outcome.atomic_of_run_cut_shift :
    let files : Files := .ofList
      [⟨⟨.working 0, ["a.s"]⟩, "sll $t0, $t1, 40\n".toUTF8⟩,
        ⟨⟨.working 0, ["c.json"]⟩, "\x7b \"endian\": \"big\" \x7d".toUTF8⟩]
    let options : AssembleOptions :=
      { input := "a.s", output := some "b", config := some "c.json" }
    (options.run files).exit = 0 ∧
      (options.run files).stderr =
        "warning: line 1: operand truncated (FieldOverflow(SHAMT))\n" ∧
      ((options.run files).files.read "b").toOption = some ⟨#[0x00, 0x09, 0x42, 0x00]⟩ ∧
      ∃ settings lines program, options.Assembles files.read settings lines program ∧
        options.Delivers files (options.order.getD settings.order) lines program
          (options.run files) := by
  intro files options
  have hexit : (options.run files).exit = 0 := by decide +kernel
  exact ⟨hexit, by decide +kernel, by decide +kernel,
    ((atomic_of_run files).2 options).2.2.1 hexit⟩

end Mips
