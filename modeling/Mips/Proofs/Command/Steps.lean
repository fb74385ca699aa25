import Mips.Command.Steps
import Mips.Proofs.Command.Files

/-! # What the steps of a command leave behind

* `Command.exec_bind`: the steps of two commands, one after the other.
* `Command.Silent`: a command that only reads. What it gives is its answer to the files.
* `Command.KeepsOutput`: a command that writes no file and prints at most on the standard error
  stream, however it ends.
* `Command.Atomic`: a command that keeps the output if it fails, and else changes at most one named
  file. A command that keeps the output may stand before it. -/

namespace Mips
set_option autoImplicit false

namespace Command

variable {α β : Type}

/-! ## Sequences of steps -/

theorem exec_bind (command : Command α) (f : α → Command β) (console : Console) :
    (command >>= f).exec console =
      match (command.exec console).1 with
      | .ok result => (f result).exec (command.exec console).2
      | .error fault => (.error fault, (command.exec console).2) := by
  show (command.bind f).exec console = _
  induction command generalizing console with
  | done result => rfl
  | fail fault => rfl
  | read path next ih => exact ih _ console
  | print stream text next ih => exact ih () (console.print text stream)
  | write path content next ih => exact ih _ (console.write path content).2

theorem exec_bind_eq_ok_iff (command : Command α) (f : α → Command β) (console after : Console)
    (result : β) :
    (command >>= f).exec console = (.ok result, after) ↔
      ∃ given between, command.exec console = (.ok given, between) ∧
        (f given).exec between = (.ok result, after) := by
  rw [exec_bind]
  rcases command.exec console with ⟨fault | given, between⟩
  · simp
  · constructor
    · intro h
      exact ⟨given, between, rfl, h⟩
    · rintro ⟨_, _, heq, h⟩
      cases heq
      exact h

theorem exec_bind_eq_error_iff (command : Command α) (f : α → Command β) (console after : Console)
    (fault : CommandFault) :
    (command >>= f).exec console = (.error fault, after) ↔
      command.exec console = (.error fault, after) ∨
        ∃ given between, command.exec console = (.ok given, between) ∧
          (f given).exec between = (.error fault, after) := by
  rw [exec_bind]
  rcases command.exec console with ⟨fault | given, between⟩
  · simp
  · constructor
    · intro h
      exact .inr ⟨given, between, rfl, h⟩
    · rintro (heq | ⟨_, _, heq, h⟩)
      · cases heq
      · cases heq
        exact h

instance : LawfulMonad Command :=
  LawfulMonad.mk' Command
    (by
      intro α command
      show command.bind .done = command
      induction command with
      | done result => rfl
      | fail fault => rfl
      | read path next ih => exact congrArg (Command.read path) (funext ih)
      | print stream text next ih => exact congrArg (Command.print stream text) (funext ih)
      | write path content next ih => exact congrArg (Command.write path content) (funext ih))
    (fun _ _ => rfl)
    (by
      intro α β γ command f g
      show (command.bind f).bind g = command.bind fun result => (f result).bind g
      induction command with
      | done result => rfl
      | fail fault => rfl
      | read path next ih => exact congrArg (Command.read path) (funext ih)
      | print stream text next ih => exact congrArg (Command.print stream text) (funext ih)
      | write path content next ih => exact congrArg (Command.write path content) (funext ih))

@[simp]
theorem exec_pure (result : α) (console : Console) :
    (pure result : Command α).exec console = (.ok result, console) :=
  rfl

@[simp]
theorem exec_fail (fault : CommandFault) (console : Console) :
    (fail fault : Command α).exec console = (.error fault, console) :=
  rfl

@[simp]
theorem exec_ofExcept (result : Except CommandFault α) (console : Console) :
    (ofExcept result).exec console = (result, console) := by
  cases result with
  | ok value => rfl
  | error fault => rfl

@[simp]
theorem exec_readText (path : String) (unreadable : FileFault → CommandFault) (console : Console) :
    (readText path unreadable).exec console =
      ((console.files.read.text path).mapError unreadable, console) :=
  exec_ofExcept _ console

@[simp]
theorem exec_printText (stream : Stream) (text : String) (console : Console) :
    (printText stream text).exec console = (.ok (), console.print text stream) :=
  rfl

/-- A write that is refused ends the command, and the console is as it was. -/
theorem exec_writeFile (path : String) (content : ByteArray) (console : Console) :
    (writeFile path content).exec console =
      match console.files.write path content with
      | .ok written => (.ok (), { console with files := written })
      | .error fault => (.error (.unwritable fault), console) := by
  show (ofExcept (((console.write path content).1).mapError .unwritable)).exec
    (console.write path content).2 = _
  rw [exec_ofExcept, Console.write]
  cases console.files.write path content with
  | ok written => rfl
  | error fault => rfl

/-- Texts that are printed one by one. -/
theorem exec_forM_printError {γ : Type} (items : List γ) (text : γ → String) (console : Console) :
    (items.forM fun item => printText .error (text item)).exec console =
      (.ok (), { console with stderr := console.stderr ++ String.join (items.map text) }) := by
  induction items generalizing console with
  | nil => simp
  | cons item items ih =>
    show (printText .error (text item) >>= fun _ => items.forM _).exec console = _
    rw [exec_bind, exec_printText, List.map_cons, String.join_cons, ← String.append_assoc]
    exact ih (console.print (text item) .error)

/-! ## Commands that only read -/

/-- What a command gives on a store of files. -/
def answer (command : Command α) (files : Files) : Except CommandFault α :=
  (command.exec ⟨files, "", ""⟩).1

def Silent (command : Command α) : Prop :=
  ∀ console, command.exec console = (command.answer console.files, console)

theorem silent_of_exec {command : Command α} (result : Files → Except CommandFault α)
    (h : ∀ console, command.exec console = (result console.files, console)) : command.Silent := by
  intro console
  rw [answer, h, h]

theorem silent_pure (result : α) : (pure result : Command α).Silent :=
  silent_of_exec (fun _ => .ok result) (exec_pure result)

theorem silent_fail (fault : CommandFault) : (fail fault : Command α).Silent :=
  silent_of_exec (fun _ => .error fault) (exec_fail fault)

theorem silent_ofExcept (result : Except CommandFault α) : (ofExcept result).Silent :=
  silent_of_exec (fun _ => result) (exec_ofExcept result)

theorem silent_ofOption (fault : CommandFault) (result : Option α) :
    (ofOption fault result).Silent := by
  cases result with
  | none => exact silent_fail fault
  | some value => exact silent_pure value

theorem silent_readText (path : String) (unreadable : FileFault → CommandFault) :
    (readText path unreadable).Silent :=
  silent_of_exec (fun files => (files.read.text path).mapError unreadable)
    (exec_readText path unreadable)

@[simp]
theorem answer_pure (result : α) (files : Files) :
    (pure result : Command α).answer files = .ok result :=
  rfl

@[simp]
theorem answer_ofExcept (result : Except CommandFault α) (files : Files) :
    (ofExcept result).answer files = result := by
  rw [answer, exec_ofExcept]

@[simp]
theorem answer_ofOption_eq_ok_iff (fault : CommandFault) (result : Option α) (files : Files)
    (value : α) : (ofOption fault result).answer files = .ok value ↔ result = some value := by
  cases result with
  | none =>
    show Except.error fault = Except.ok value ↔ none = some value
    simp
  | some found =>
    show Except.ok found = Except.ok value ↔ some found = some value
    simp

@[simp]
theorem answer_readText (path : String) (unreadable : FileFault → CommandFault) (files : Files) :
    (readText path unreadable).answer files = (files.read.text path).mapError unreadable := by
  rw [answer, exec_readText]

theorem Silent.exec_bind {command : Command α} (h : command.Silent) (f : α → Command β)
    (console : Console) :
    (command >>= f).exec console =
      match command.answer console.files with
      | .ok result => (f result).exec console
      | .error fault => (.error fault, console) := by
  rw [Command.exec_bind, h]

theorem Silent.answer_bind {command : Command α} (h : command.Silent) (f : α → Command β)
    (files : Files) :
    (command >>= f).answer files = command.answer files >>= fun result => (f result).answer files := by
  rw [answer, h.exec_bind]
  cases command.answer files with
  | ok result => rfl
  | error fault => rfl

theorem Silent.bind {command : Command α} {f : α → Command β} (h : command.Silent)
    (hf : ∀ result, (f result).Silent) : (command >>= f).Silent := by
  intro console
  rw [h.exec_bind, h.answer_bind]
  cases command.answer console.files with
  | ok result => exact hf result console
  | error fault => rfl

theorem Silent.exec_bind_eq_ok_iff {command : Command α} (h : command.Silent) (f : α → Command β)
    (console after : Console) (result : β) :
    (command >>= f).exec console = (.ok result, after) ↔
      ∃ given, command.answer console.files = .ok given ∧
        (f given).exec console = (.ok result, after) := by
  rw [h.exec_bind]
  cases command.answer console.files with
  | ok given => simp
  | error fault => simp

/-! ## Commands that keep the output -/

/-- The files and the standard output are as they were. -/
structure SameOutput (before after : Console) : Prop where
  files_eq : after.files = before.files
  stdout_eq : after.stdout = before.stdout

theorem SameOutput.refl (console : Console) : SameOutput console console :=
  ⟨rfl, rfl⟩

theorem SameOutput.trans {before between after : Console} (h : SameOutput before between)
    (h' : SameOutput between after) : SameOutput before after :=
  ⟨h'.files_eq.trans h.files_eq, h'.stdout_eq.trans h.stdout_eq⟩

def KeepsOutput (command : Command α) : Prop :=
  ∀ console, SameOutput console (command.exec console).2

/-- A command that fails keeps the output, and one that does not changes at most the place that the
named path leads to. -/
structure Atomic (command : Command α) (named : Option String) : Prop where
  of_error {console after : Console} {fault : CommandFault} :
    command.exec console = (.error fault, after) → SameOutput console after
  of_ok {console after : Console} {result : α} : command.exec console = (.ok result, after) →
    ∀ place, after.files.content? place ≠ console.files.content? place →
      ∃ path, named = some path ∧ console.files.walk path = .ok place

theorem Silent.keepsOutput {command : Command α} (h : command.Silent) : command.KeepsOutput := by
  intro console
  rw [h console]
  exact .refl console

theorem keepsOutput_forM_printError {γ : Type} (items : List γ) (text : γ → String) :
    (items.forM fun item => printText .error (text item)).KeepsOutput := by
  intro console
  rw [exec_forM_printError]
  exact ⟨rfl, rfl⟩

theorem KeepsOutput.bind {command : Command α} {f : α → Command β} (h : command.KeepsOutput)
    (hf : ∀ result, (f result).KeepsOutput) : (command >>= f).KeepsOutput := by
  intro console
  have hfirst := h console
  rw [exec_bind]
  cases (command.exec console).1 with
  | error fault => exact hfirst
  | ok result => exact hfirst.trans (hf result _)

theorem KeepsOutput.atomic_bind {command : Command α} {f : α → Command β} {named : Option String}
    (h : command.KeepsOutput) (hf : ∀ result, (f result).Atomic named) :
    (command >>= f).Atomic named where
  of_error {console after fault} hexec := by
    have hfirst := h console
    rcases (exec_bind_eq_error_iff _ _ _ _ _).mp hexec with hfail | ⟨given, between, hgiven, hrest⟩
    · rw [hfail] at hfirst
      exact hfirst
    · rw [hgiven] at hfirst
      exact hfirst.trans ((hf given).of_error hrest)
  of_ok {console after result} hexec := by
    have hfirst := h console
    obtain ⟨given, between, hgiven, hrest⟩ := (exec_bind_eq_ok_iff _ _ _ _ _).mp hexec
    rw [hgiven] at hfirst
    rw [← hfirst.files_eq]
    exact (hf given).of_ok hrest

/-- Either the text is printed, or the file is written. -/
theorem exec_deliver_eq_ok_iff (content : ByteArray) (text : String) (output : Option String)
    (console after : Console) :
    (deliver content text output).exec console = (.ok (), after) ↔
      (output = none ∧ after = console.print text .output) ∨
      ∃ path written, output = some path ∧ console.files.write path content = .ok written ∧
        after = { console with files := written } := by
  cases output with
  | none => simp [deliver, eq_comm]
  | some path =>
    rw [deliver, exec_writeFile]
    cases hwrite : console.files.write path content with
    | ok written => simp [hwrite, @eq_comm _ after]
    | error fault => simp [hwrite]

/-- The text is at the end of the standard output, or the content is in the file. -/
theorem delivered_of_exec {content : ByteArray} {text : String} {output : Option String}
    {console after : Console} (h : (deliver content text output).exec console = (.ok (), after)) :
    after.stderr = console.stderr ∧
      (output = none → after.stdout = console.stdout ++ text ∧ after.files = console.files) ∧
      ∀ path, output = some path →
        after.stdout = console.stdout ∧ after.files.read path = .ok content := by
  rcases (exec_deliver_eq_ok_iff _ _ _ _ _).mp h with
    ⟨rfl, rfl⟩ | ⟨path, written, rfl, hwrite, rfl⟩
  · exact ⟨rfl, fun _ => ⟨rfl, rfl⟩, fun path hpath => by cases hpath⟩
  · refine ⟨rfl, fun hnone => (by cases hnone), ?_⟩
    intro other hother
    cases hother
    exact ⟨rfl, Files.read_of_write hwrite⟩

/-- Only a write can fail. -/
theorem exists_exec_deliver_iff (content : ByteArray) (text : String) (output : Option String)
    (console : Console) :
    (∃ after, (deliver content text output).exec console = (.ok (), after)) ↔
      ∀ path, output = some path → ∃ written, console.files.write path content = .ok written := by
  simp only [exec_deliver_eq_ok_iff]
  constructor
  · rintro ⟨_, ⟨hnone, -⟩ | ⟨path, written, hpath, hwrite, -⟩⟩ other hother
    · rw [hnone] at hother
      cases hother
    · obtain rfl := Option.some.inj (hpath.symm.trans hother)
      exact ⟨written, hwrite⟩
  · intro h
    cases output with
    | none => exact ⟨_, .inl ⟨rfl, rfl⟩⟩
    | some path =>
      obtain ⟨written, hwrite⟩ := h path rfl
      exact ⟨_, .inr ⟨path, written, rfl, hwrite, rfl⟩⟩

/-- A write that is refused ends the command before anything is changed. -/
theorem atomic_deliver (content : ByteArray) (text : String) (output : Option String) :
    (deliver content text output).Atomic output where
  of_error {console after fault} hexec := by
    cases output with
    | none => cases hexec
    | some path =>
      rw [deliver, exec_writeFile] at hexec
      split at hexec
      · cases hexec
      · cases hexec
        exact .refl console
  of_ok {console after result} hexec := by
    intro place hplace
    rcases (exec_deliver_eq_ok_iff _ _ _ _ _).mp hexec with
      ⟨-, rfl⟩ | ⟨path, written, hpath, hwrite, rfl⟩
    · exact absurd rfl hplace
    · exact ⟨path, hpath, Files.content?_of_write hwrite hplace⟩

end Command

end Mips
