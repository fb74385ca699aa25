import Mips.Proofs.Command.Atomicity
import Mips.Proofs.Command.ListingText
import Mips.Proofs.Json.Encode

/-! # The commands agree on a source

Both commands load the same program from a source, or fail with the same fault.

* `SourceRequest`: a source file with its definitions and its base address, and what either command
  is asked to do with them.
* `SourceRequest.load`: the program that is asked for. `run_assemble`, `run_list_bytecode` and
  `run_list_labels` are the runs of the commands in terms of it.
* `Listing.ShownIn`, `PlacedLabel.ShownIn`: a text that is read back as a listing, or as labels.
* `SourceRequest.commands_agree`: the two commands have the same exit status, and what they print
  is read back as one listing. -/

namespace Mips
set_option autoImplicit false

/-! ## Dumps -/

namespace Listing.Entry

/-- Address, word and source of an entry, on one line. -/
def dump (entry : Entry) : String :=
  Text.hex0x 8 entry.address.toNat ++ ": " ++ Text.hex0x 8 entry.word.toNat ++
    (if entry.source.isEmpty then "" else "  " ++ entry.source)

theorem render_placedWord (instructions : InstructionSet) (slot : Slot) :
    slot.placedWord.render = (ofSlot instructions slot).dump ++ "\n" := by
  rw [PlacedWord.render, dump, ofSlot, Slot.placedWord]
  by_cases hsource : (Text.trim slot.statement.text).isEmpty = true
  · simp only [hsource, if_true, String.append_empty]
  · simp only [hsource, Bool.false_eq_true, if_false, String.append_assoc]

theorem isLine_dump {entry : Entry} (h : Text.IsLine entry.source) :
    Text.IsLine entry.dump := by
  have haddress := (Text.isToken_hex0x 8 entry.address.toNat).isLine
  have htoken := Text.isToken_hex0x 8 entry.word.toNat
  have hword := htoken.isLine
  have hcolon : '\n' ∉ (Text.hex0x 8 entry.address.toNat ++ ": ").toList := by
    simp [String.toList_append, haddress.not_lineFeed]
  have hnumbers := Text.isLine_append hcolon hword htoken.ne_empty
  rw [dump]
  by_cases hsource : entry.source.isEmpty = true
  · rw [if_pos hsource, String.append_empty]
    exact hnumbers
  · rw [if_neg hsource, ← String.append_assoc]
    apply Text.isLine_append _ h
    · intro hempty
      rw [hempty] at hsource
      exact hsource rfl
    · simp [String.toList_append, haddress.not_lineFeed, hword.not_lineFeed]

end Listing.Entry

namespace Program

theorem render_eq_join_dump (program : Program) (instructions : InstructionSet) :
    program.render =
      String.join ((program.listing instructions).entries.map fun entry => entry.dump ++ "\n") := by
  have hslots : program.placedWords.map PlacedWord.render =
      (program.listing instructions).entries.map fun entry => entry.dump ++ "\n" := by
    rw [placedWords, listing, List.map_map, List.map_map]
    exact List.map_congr_left fun slot _ => Listing.Entry.render_placedWord instructions slot
  rw [render, hslots]

theorem lines_render {target : Target} {text : String} {program : Program}
    (h : target.Assembles (Text.lines text) program) (instructions : InstructionSet) :
    Text.lines program.render =
      (program.listing instructions).entries.map Listing.Entry.dump := by
  have hdumps : ((program.listing instructions).entries.map fun entry => entry.dump ++ "\n") =
      ((program.listing instructions).entries.map Listing.Entry.dump).map (· ++ "\n") := by
    rw [List.map_map]
    rfl
  rw [program.render_eq_join_dump instructions, hdumps]
  apply Text.lines_join
  intro dump hdump
  obtain ⟨entry, hentry, rfl⟩ := List.mem_map.mp hdump
  exact Listing.Entry.isLine_dump (isLine_source_of_mem h hentry)

end Program

/-! ## Labels -/

namespace PlacedLabel

/-- The address, the slot and the name that a row shows. An empty name shows nothing. -/
def readRow? (row : String) : Option PlacedLabel :=
  match Text.fields row with
  | address :: slot :: name => do
    let address ← (Text.unsigned32 address).toOption
    return ⟨String.join name, Nat.ofDigitChars 10 slot.toList 0, BitVec.ofNat 32 address⟩
  | _ => none

def row (label : PlacedLabel) : String :=
  Address.text label.address ++ " " ++ Text.alignRight 5 (toString label.slot) ++ " " ++ label.name

theorem fields_row (label : PlacedLabel) :
    Text.fields label.row =
      Address.text label.address :: toString label.slot :: Text.fields label.name := by
  have haddress : Text.fields (Address.text label.address) = [Address.text label.address] :=
    Text.fields_of_isField (Text.isToken_hex0x 8 label.address.toNat).isField
  have hslot : Text.fields (toString label.slot) = [toString label.slot] :=
    Text.fields_of_isField (Text.isToken_repr label.slot).isField
  obtain ⟨spaces, hspaces, halign⟩ := Text.exists_alignRight 5 (toString label.slot)
  have hgap : (" " ++ spaces).toList.all Text.isBlank = true := by
    rw [List.all_eq_true]
    intro c hc
    rw [String.toList_append, List.mem_append] at hc
    rw [hc.elim List.mem_singleton.mp (hspaces c)]
    rfl
  have hrow : label.row =
      Address.text label.address ++ (" " ++ spaces) ++ toString label.slot ++ " " ++ label.name := by
    rw [row, halign]
    simp only [String.append_assoc]
  rw [hrow, Text.fields_append _ " " _ (by decide) (by decide),
    Text.fields_append _ _ _ (by simp) hgap, haddress, hslot]
  rfl

theorem readRow?_row {label : PlacedLabel} (h : ∀ c ∈ label.name.toList, Text.isBlank c = false) :
    readRow? label.row = some label := by
  have haddress : Text.unsigned32 (Address.text label.address) = .ok label.address.toNat :=
    Text.unsigned32_hex0x 8 _ (by omega) label.address.isLt label.address.isLt
  have hname : String.join (Text.fields label.name) = label.name := by
    by_cases hempty : label.name = ""
    · rw [hempty]
      rfl
    · rw [Text.fields_of_isField ⟨hempty, h⟩, String.join_cons, String.join_nil,
        String.append_empty]
  rw [readRow?, fields_row]
  simp [haddress, hname, Except.toOption]

theorem isLine_row {label : PlacedLabel} (h : ∀ c ∈ label.name.toList, Text.isBlank c = false) :
    Text.IsLine label.row := by
  -- A space is the only blank character of a row.
  have hchars : ∀ c ∈ label.row.toList, c = ' ' ∨ Text.isBlank c = false := by
    obtain ⟨spaces, hspaces, halign⟩ := Text.exists_alignRight 5 (toString label.slot)
    intro c hc
    simp only [row, halign, String.toList_append, List.mem_append] at hc
    rcases hc with (((hc | hc) | hc | hc) | hc) | hc
    · exact .inr ((Text.isToken_hex0x 8 label.address.toNat).isField.not_blank c hc)
    · exact .inl (List.mem_singleton.mp hc)
    · exact .inl (hspaces c hc)
    · exact .inr ((Text.isToken_repr label.slot).isField.not_blank c hc)
    · exact .inl (List.mem_singleton.mp hc)
    · exact .inr (h c hc)
  refine ⟨?_, ?_⟩
  · intro hmem
    exact absurd (hchars '\n' hmem) (by decide)
  · intro hlast
    exact absurd (hchars '\r' (List.mem_of_getLast? hlast)) (by decide)

/-- A text that is read back as labels, in order. -/
def ShownIn (labels : List PlacedLabel) (text : String) : OutputFormat → Prop
  | .text => (Text.lines text).map readRow? = labels.map some
  | .json => ∃ items, JsonValue.IsDocument text (.array items) ∧
      List.Forall₂ PlacedLabel.ShownBy labels items

theorem shownIn_labelsText {labels : List PlacedLabel}
    (h : ∀ label ∈ labels, ∀ c ∈ label.name.toList, Text.isBlank c = false)
    (format : OutputFormat) : ShownIn labels (ListOptions.labelsText labels format) format := by
  cases format with
  | text =>
    have hrender : labels.map render = (labels.map row).map (· ++ "\n") := by
      rw [List.map_map]
      rfl
    have hlines : Text.lines (renderAll labels) = labels.map row := by
      rw [renderAll, hrender]
      apply Text.lines_join
      intro text htext
      obtain ⟨label, hlabel, rfl⟩ := List.mem_map.mp htext
      exact isLine_row (h label hlabel)
    show (Text.lines (renderAll labels)).map readRow? = labels.map some
    rw [hlines, List.map_map]
    apply List.map_congr_left
    intro label hlabel
    rw [Function.comp_apply, readRow?_row (h label hlabel)]
  | json =>
    refine ⟨_, ?_, Json.forall₂_values shownBy_toJson labels⟩
    have hdocument := (allToJson labels).isDocument_pretty
    rw [allToJson, Json.value] at hdocument
    exact hdocument

end PlacedLabel

/-- Labels are taken from tokens, and so they hold no blank character. -/
theorem Program.not_blank_of_mem_labels {target : Target} {text : String} {program : Program}
    (h : target.Assembles (Text.lines text) program) (instructions : InstructionSet) :
    ∀ label ∈ (program.listing instructions).labels, ∀ c ∈ label.name.toList,
      Text.isBlank c = false := by
  intro label hlabel c hc
  have hentries := placedLabels_eq h instructions
  rw [listing, hentries] at hlabel
  obtain ⟨entry, hentry, hplaced⟩ := List.mem_filterMap.mp hlabel
  obtain ⟨name, hname, rfl⟩ := Option.map_eq_some_iff.mp hplaced
  have hseparator := not_separator_of_label h hentry hname c hc
  rw [Text.isTokenSeparator, Bool.or_eq_false_iff] at hseparator
  exact hseparator.1

/-! ## Listings -/

/-- A text that is read back as a listing. Rows show the addresses and the words of the entries, and
a JSON document shows all of it. -/
def Listing.ShownIn (listing : Listing) (text : String) : OutputFormat → Prop
  | .text => (wordRows text).map readRow? =
      listing.entries.map fun entry => some (entry.address, entry.word)
  | .json => ∃ value : JsonValue, value.IsDocument text ∧ listing.ShownBy value

theorem Program.shownIn_listingText {target : Target} {text : String} {program : Program}
    (h : target.Assembles (Text.lines text) program) {instructions : InstructionSet}
    (hnames : ∀ d ∈ instructions.toList, Text.IsField d.name) (showSource : Bool)
    (format : OutputFormat) :
    (program.listing instructions).ShownIn
      (ListOptions.listingText (program.listing instructions) showSource format) format := by
  cases format with
  | text => exact map_readRow?_wordRows h hnames showSource
  | json => exact ⟨_, Json.isDocument_pretty _, Listing.shownBy_toJson _⟩

/-! ## Requests -/

/-- A source file to assemble, and the definitions and the base address to use if not the default
ones. -/
structure SourceRequest where
  source : String
  definitions : Option String
  base : Option Address
deriving DecidableEq, Repr

/-- The outcome of a run that prints what it makes of something it loaded. -/
def Outcome.ofLoaded {α : Type} (files : Files) (warnings text : α → String) :
    Except CommandFault α → Outcome
  | .ok loaded => ⟨0, text loaded, warnings loaded, files⟩
  | .error fault => ⟨1, "", fault.text, files⟩

theorem Outcome.exit_ofLoaded_eq_zero_iff {α : Type} (files : Files) (warnings text : α → String)
    (result : Except CommandFault α) :
    (ofLoaded files warnings text result).exit = 0 ↔ ∃ loaded, result = .ok loaded := by
  cases result with
  | error fault => simp [ofLoaded]
  | ok loaded => simp [ofLoaded]

theorem Command.Silent.run_bind {α : Type} {load : Command α} (h : load.Silent)
    {f : α → Command Unit} {warnings text : α → String}
    (hf : ∀ loaded files, (f loaded).exec ⟨files, "", ""⟩ =
      (.ok (), ⟨files, text loaded, warnings loaded⟩)) (files : Files) :
    (load >>= f).run files = .ofLoaded files warnings text (load.answer files) := by
  rw [run, h.exec_bind]
  cases load.answer files with
  | error fault => rfl
  | ok loaded =>
    show Outcome.ofExec ((f loaded).exec ⟨files, "", ""⟩) = _
    rw [hf loaded files]
    rfl

namespace SourceRequest

def loadBase (request : SourceRequest) : Address :=
  request.base.getD defaultBase

/-- The assemble command without an output file, without settings and up to the first fault. The
byte order makes no difference to it. -/
def assemble (request : SourceRequest) (order : Option ByteOrder) : AssembleOptions :=
  { input := request.source, definitions := request.definitions, base := request.base,
    order := order }

/-- The list command without an output file. -/
def list (request : SourceRequest) (subject : Subject) (format : OutputFormat) : ListOptions :=
  { subject := subject, definitions := request.definitions, base := request.loadBase,
    format := format }

def load (request : SourceRequest) : Command (InstructionSet × Program) := do
  let instructions ← Command.loadInstructions request.definitions
  let program ← ListOptions.loadProgram ⟨instructions, request.loadBase⟩ request.source
  return (instructions, program)

theorem silent_load (request : SourceRequest) : request.load.Silent :=
  (Command.silent_loadInstructions _).bind fun _ =>
    (ListOptions.silent_loadProgram _ _).bind fun _ => Command.silent_pure _

theorem run_assemble (request : SourceRequest) (order : Option ByteOrder) (files : Files) :
    (request.assemble order).run files =
      .ofLoaded files (fun loaded => AssembleOptions.warnings loaded.2)
        (fun loaded => loaded.2.render) (request.load.answer files) := by
  -- Without settings the first fault is the one that is reported, as it is in a listing.
  have hcommand : (request.assemble order).command = request.load >>= fun loaded =>
      (loaded.2.truncatedSlots.forM fun slot =>
        Command.printText .error (AssembleOptions.warning slot)) >>= fun _ =>
      Command.printText .output loaded.2.render := by
    simp only [AssembleOptions.command, load, ListOptions.loadProgram, bind_assoc, pure_bind]
    rfl
  rw [AssembleOptions.run, hcommand]
  apply request.silent_load.run_bind
  intro loaded files
  rw [Command.exec_bind, Command.exec_forM_printError]
  simp [Console.print, AssembleOptions.warnings]

theorem run_of_prints (request : SourceRequest) {options : ListOptions}
    {text : InstructionSet × Program → String}
    (h : options.command = request.load >>= fun loaded => Command.printText .output (text loaded))
    (files : Files) :
    options.run files = .ofLoaded files (fun _ => "") text (request.load.answer files) := by
  rw [ListOptions.run, h]
  apply request.silent_load.run_bind
  intro loaded files
  simp [Console.print]

theorem run_list_bytecode (request : SourceRequest) (showSource : Bool) (format : OutputFormat)
    (files : Files) :
    (request.list (.bytecode request.source showSource) format).run files =
      .ofLoaded files (fun _ => "")
        (fun loaded => ListOptions.listingText (loaded.2.listing loaded.1) showSource format)
        (request.load.answer files) := by
  apply request.run_of_prints
  simp only [list, ListOptions.command, ListOptions.text, load, bind_assoc, pure_bind]
  rfl

theorem run_list_labels (request : SourceRequest) (format : OutputFormat) (files : Files) :
    (request.list (.labels request.source) format).run files =
      .ofLoaded files (fun _ => "")
        (fun loaded => ListOptions.labelsText loaded.2.placedLabels format)
        (request.load.answer files) := by
  apply request.run_of_prints
  simp only [list, ListOptions.command, ListOptions.text, load, bind_assoc, pure_bind]
  rfl

/-- The listing of the source, by the definitions and at the base address that are asked for. -/
def Lists (request : SourceRequest) (read : ReadFile) (listing : Listing) : Prop :=
  ∃ instructions text program, read.Defines instructions request.definitions ∧
    read.text request.source = .ok text ∧
    Target.assemble ⟨instructions, request.loadBase⟩ (Text.lines text) = .ok program ∧
    listing = program.listing instructions

theorem answer_load_eq_ok_iff (request : SourceRequest) (files : Files)
    (instructions : InstructionSet) (program : Program) :
    request.load.answer files = .ok (instructions, program) ↔
      files.read.Defines instructions request.definitions ∧
        ∃ text, files.read.text request.source = .ok text ∧
          Target.assemble ⟨instructions, request.loadBase⟩ (Text.lines text) = .ok program := by
  rw [load, (Command.silent_loadInstructions _).answer_bind, bind_eq_ok_iff]
  simp only [(ListOptions.silent_loadProgram _ _).answer_bind, bind_eq_ok_iff, Command.answer_pure,
    Command.answer_loadInstructions_eq_ok_iff, ListOptions.answer_loadProgram_eq_ok_iff,
    Except.ok.injEq, Prod.mk.injEq]
  constructor
  · rintro ⟨_, hdefines, _, hprogram, rfl, rfl⟩
    exact ⟨hdefines, hprogram⟩
  · rintro ⟨hdefines, hprogram⟩
    exact ⟨_, hdefines, _, hprogram, rfl, rfl⟩

theorem exists_load_iff (request : SourceRequest) (files : Files) :
    (∃ loaded, request.load.answer files = .ok loaded) ↔
      ∃ listing, request.Lists files.read listing := by
  simp only [Prod.exists, answer_load_eq_ok_iff]
  constructor
  · rintro ⟨instructions, program, hdefines, text, htext, hassemble⟩
    exact ⟨_, instructions, text, program, hdefines, htext, hassemble, rfl⟩
  · rintro ⟨_, instructions, text, program, hdefines, htext, hassemble, -⟩
    exact ⟨instructions, program, hdefines, text, htext, hassemble⟩

/-- The names of instructions are fields, whether they are built in or read from a file. -/
theorem isField_name_of_defines {read : ReadFile} {instructions : InstructionSet}
    {definitions : Option String} (h : read.Defines instructions definitions) :
    ∀ d ∈ instructions.toList, Text.IsField d.name := by
  apply InstructionSet.isField_name_of_mem
  cases definitions with
  | none => exact .inl h
  | some path =>
    obtain ⟨text, -, hparse⟩ := h
    exact .inr ⟨text, hparse⟩

/-- On every source the two commands have the same exit status, and it is zero exactly if the source
has a listing. If they fail, they report the same fault. If they do not, both print this one listing:
the assemble command the address and the word of its entries, line by line, and the list command the
listing itself or the labels of its entries, as text or as JSON, and what it prints is read back as
the listing or the labels. -/
theorem commands_agree (files : Files) (request : SourceRequest) (order : Option ByteOrder) :
    let assembled := (request.assemble order).run files
    let listed (showSource : Bool) (format : OutputFormat) :=
      (request.list (.bytecode request.source showSource) format).run files
    let labelled (format : OutputFormat) :=
      (request.list (.labels request.source) format).run files
    (∀ showSource format, (listed showSource format).exit = assembled.exit ∧
      (labelled format).exit = assembled.exit) ∧
    (assembled.exit = 0 ↔ ∃ listing, request.Lists files.read listing) ∧
    (assembled.exit ≠ 0 → ∀ showSource format,
      (listed showSource format).stderr = assembled.stderr ∧
      (labelled format).stderr = assembled.stderr) ∧
    ∀ listing, request.Lists files.read listing →
      assembled.stdout = String.join (listing.entries.map fun entry => entry.dump ++ "\n") ∧
      Text.lines assembled.stdout = listing.entries.map Listing.Entry.dump ∧
      (∀ showSource format,
        (listed showSource format).stdout =
            ListOptions.listingText listing showSource format ∧
          listing.ShownIn (listed showSource format).stdout format) ∧
      (∀ format, (labelled format).stdout = ListOptions.labelsText listing.labels format ∧
        PlacedLabel.ShownIn listing.labels (labelled format).stdout format) ∧
      listing.labels = listing.entries.filterMap Listing.Entry.placedLabel? ∧
      ∀ k entry, listing.entries[k]? = some entry →
        entry.slot = k ∧ entry.address = slotAddress request.loadBase k := by
  simp only [run_assemble, run_list_bytecode, run_list_labels]
  refine ⟨?_, ?_, ?_, ?_⟩
  · intro showSource format
    cases request.load.answer files with
    | error fault => exact ⟨rfl, rfl⟩
    | ok loaded => exact ⟨rfl, rfl⟩
  · rw [Outcome.exit_ofLoaded_eq_zero_iff, exists_load_iff]
  · intro hexit showSource format
    cases hload : request.load.answer files with
    | error fault => exact ⟨rfl, rfl⟩
    | ok loaded =>
      rw [hload] at hexit
      exact absurd rfl hexit
  · rintro _ ⟨instructions, text, program, hdefines, htext, hassemble, rfl⟩
    have hload := (request.answer_load_eq_ok_iff files instructions program).mpr
      ⟨hdefines, text, htext, hassemble⟩
    have h := (Target.assemble_eq_ok_iff _ _ _).mp hassemble
    have hnames := isField_name_of_defines hdefines
    have hblank := Program.not_blank_of_mem_labels h instructions
    rw [hload]
    exact ⟨program.render_eq_join_dump instructions, Program.lines_render h instructions,
      fun showSource format => ⟨rfl, Program.shownIn_listingText h hnames showSource format⟩,
      fun format => ⟨rfl, PlacedLabel.shownIn_labelsText hblank format⟩,
      Program.placedLabels_eq h instructions,
      fun k entry => Program.slot_and_address_of_entry h instructions⟩

/-- The second slot of the first source is loaded at address zero. The second source is refused. -/
theorem commands_agree_across_zero :
    let files : Files := .ofList
      [⟨⟨.working 0, ["a.s"]⟩, "add $t0, $t1, $t2\nend: j end\n".toUTF8⟩,
        ⟨⟨.working 0, ["b.s"]⟩, "j nowhere\n".toUTF8⟩]
    let request : SourceRequest := ⟨"a.s", none, some 0xfffffffc⟩
    let refused : SourceRequest := ⟨"b.s", none, none⟩
    ((request.assemble none).run files).exit = 0 ∧
      ((request.list (.labels "a.s") .text).run files).stdout = "0x00000000     1 end\n" ∧
      (∃ listing, request.Lists files.read listing ∧
        Text.lines ((request.assemble none).run files).stdout =
          listing.entries.map Listing.Entry.dump ∧
        listing.ShownIn ((request.list (.bytecode "a.s" true) .json).run files).stdout .json ∧
        PlacedLabel.ShownIn listing.labels
          ((request.list (.labels "a.s") .text).run files).stdout .text) ∧
      ((refused.assemble none).run files).exit ≠ 0 ∧
      ((refused.list (.bytecode "b.s" false) .json).run files).stderr =
        ((refused.assemble none).run files).stderr := by
  intro files request refused
  have hexit : ((request.assemble none).run files).exit = 0 := by decide +kernel
  have hrefused : ((refused.assemble none).run files).exit ≠ 0 := by decide +kernel
  obtain ⟨-, hlists, -, hshown⟩ := commands_agree files request none
  obtain ⟨listing, hlisting⟩ := hlists.mp hexit
  obtain ⟨-, hlines, hlisted, hlabelled, -⟩ := hshown listing hlisting
  exact ⟨hexit, by decide +kernel,
    ⟨listing, hlisting, hlines, (hlisted true .json).2, (hlabelled .text).2⟩, hrefused,
    ((commands_agree files refused none).2.2.1 hrefused false .json).1⟩

end SourceRequest

end Mips
