import Mips.Command.Files
import Mips.Proofs.Operation.Reading

/-! # Files after a write

A write either fails or replaces the content of one place. No directory comes into being with it,
so that a path leads to the same place before and after, and what was written is read again.

* `content?_put`: the contents after a replacement.
* `write_eq_ok_iff`: when a path can be written, and what the files are then.
* `hasDirectory_of_write`, `read_of_write`: what is the same after a write, and what is read. -/

namespace Mips
set_option autoImplicit false

/-! ## Places -/

namespace Place

theorem isBelow_iff (place above : Place) :
    place.isBelow above = true ↔
      place.anchor = above.anchor ∧ ∃ names, names ≠ [] ∧ place.names = above.names ++ names := by
  simp only [isBelow, Bool.and_eq_true, beq_iff_eq, List.isPrefixOf_iff_prefix,
    decide_eq_true_eq, and_assoc]
  constructor
  · intro h
    obtain ⟨hanchor, ⟨names, hnames⟩, hlength⟩ := h
    refine ⟨hanchor, names, ?_, hnames.symm⟩
    intro hnil
    rw [← hnames, hnil, List.append_nil] at hlength
    omega
  · intro h
    obtain ⟨hanchor, names, hne, hnames⟩ := h
    have hpos := List.length_pos_iff.mpr hne
    refine ⟨hanchor, ⟨names, hnames.symm⟩, ?_⟩
    rw [hnames, List.length_append]
    omega

theorem isBelow_trans {a b c : Place} (hab : a.isBelow b = true) (hbc : b.isBelow c = true) :
    a.isBelow c = true := by
  rw [isBelow_iff] at hab hbc ⊢
  obtain ⟨hanchor, names, hne, hnames⟩ := hab
  obtain ⟨hanchor', names', _, hnames'⟩ := hbc
  refine ⟨hanchor.trans hanchor', names' ++ names, ?_, ?_⟩
  · intro hnil
    exact hne (List.append_eq_nil_iff.mp hnil).2
  · rw [hnames, hnames', List.append_assoc]

theorem isBelow_parent {place : Place} (h : place.names ≠ []) :
    place.isBelow place.parent = true := by
  rw [isBelow_iff, parent, if_neg (by simpa using h)]
  exact ⟨rfl, [place.names.getLast h], by simp, (List.dropLast_concat_getLast h).symm⟩

end Place

namespace Files

/-! ## Contents -/

theorem content?_put (files : Files) (place other : Place) (content : ByteArray) :
    (files.put place content).content? other =
      if other = place then some content else files.content? other := by
  unfold put
  by_cases hsome : (files.content? place).isSome = true
  · rw [if_pos hsome]
    -- A replacement keeps all places, and so the file that is found.
    have hplaces : ((fun file : File => file.place == other) ∘ fun file =>
        if file.place == place then { file with content := content } else file) =
        fun file => file.place == other := by
      funext file
      simp only [Function.comp_apply]
      split <;> rfl
    simp only [content?, List.find?_map, hplaces, Option.map_map]
    by_cases hother : other = place
    · rw [if_pos hother]
      rw [content?, Option.isSome_map, ← hother] at hsome
      obtain ⟨file, hfile⟩ := Option.isSome_iff_exists.mp hsome
      have hplace := List.find?_some hfile
      rw [hfile, Option.map_some, Function.comp_apply, if_pos (hother ▸ hplace)]
    · rw [if_neg hother]
      apply Option.map_congr
      intro file hfile
      have hplace : file.place = other := by simpa using List.find?_some hfile
      have hne : (file.place == place) = false := by simpa [hplace] using hother
      rw [Function.comp_apply, hne]
      rfl
  · rw [if_neg hsome]
    simp only [content?, List.find?_append, List.find?_singleton]
    by_cases hother : other = place
    · have hnone : files.files.find? (fun file => file.place == place) = none := by
        simpa [content?] using hsome
      simp [hother, hnone]
    · have hne : (place == other) = false := by simpa using fun h => hother h.symm
      simp [hother, hne]

/-! ## Directories -/

theorem hasDirectory_iff (files : Files) (place : Place) :
    files.hasDirectory place = true ↔
      place.names = [] ∨ ∃ other, (files.content? other).isSome = true ∧
        other.isBelow place = true := by
  simp only [hasDirectory, Bool.or_eq_true, List.isEmpty_iff, List.any_eq_true, content?,
    Option.isSome_map, List.find?_isSome, beq_iff_eq]
  constructor
  · rintro (hnil | ⟨file, hfile, hbelow⟩)
    · exact .inl hnil
    · exact .inr ⟨file.place, ⟨file, hfile, rfl⟩, hbelow⟩
  · rintro (hnil | ⟨other, ⟨file, hfile, rfl⟩, hbelow⟩)
    · exact .inl hnil
    · exact .inr ⟨file, hfile, hbelow⟩

theorem hasDirectory_above {files : Files} {dir place : Place}
    (hdir : files.hasDirectory dir = true) (hbelow : dir.isBelow place = true) :
    files.hasDirectory place = true := by
  rw [hasDirectory_iff] at hdir ⊢
  rcases hdir with hnil | ⟨other, hother, hdir⟩
  · obtain ⟨_, names, hne, hnames⟩ := (Place.isBelow_iff _ _).mp hbelow
    rw [hnil] at hnames
    exact absurd (List.append_eq_nil_iff.mp hnames.symm).2 hne
  · exact .inr ⟨other, hother, Place.isBelow_trans hdir hbelow⟩

theorem hasDirectory_parent {files : Files} {dir : Place} (hdir : files.hasDirectory dir = true) :
    files.hasDirectory dir.parent = true := by
  by_cases hnil : dir.names = []
  · rw [hasDirectory_iff, Place.parent, if_pos (by simpa using hnil)]
    exact .inl rfl
  · exact hasDirectory_above hdir (Place.isBelow_parent hnil)

/-- A directory, or a name in one. -/
def InDirectory (files : Files) (place : Place) : Prop :=
  files.hasDirectory place = true ∨
    ∃ dir name, files.hasDirectory dir = true ∧ place = ⟨dir.anchor, dir.names ++ [name]⟩

theorem step_eq_ok_iff (files : Files) (place next : Place) (part : String) :
    files.step place part = .ok next ↔
      files.hasDirectory place = true ∧ place.follow part = next := by
  unfold step enterFault?
  by_cases hdir : files.hasDirectory place = true
  · simp [hdir]
  · by_cases hlong : place.hasLongName = true
    · simp [hdir, hlong]
    · by_cases hsome : (files.content? place).isSome = true <;> simp [hdir, hlong, hsome]

theorem inDirectory_follow {files : Files} {place : Place}
    (h : files.hasDirectory place = true) (part : String) :
    files.InDirectory (place.follow part) := by
  unfold Place.follow
  split
  · exact .inl h
  · split
    · exact .inl (hasDirectory_parent h)
    · exact .inr ⟨place, part, h, rfl⟩

theorem inDirectory_foldlM_step {files : Files} {parts : List String} {start place : Place}
    (hstart : files.InDirectory start) (h : parts.foldlM files.step start = .ok place) :
    files.InDirectory place := by
  induction parts generalizing start with
  | nil =>
    rw [← Except.ok.inj h]
    exact hstart
  | cons part parts ih =>
    rw [List.foldlM_cons, bind_eq_ok_iff] at h
    obtain ⟨next, hstep, hrest⟩ := h
    obtain ⟨hdir, hnext⟩ := (step_eq_ok_iff _ _ _ _).mp hstep
    rw [← hnext] at hrest
    exact ih (inDirectory_follow hdir part) hrest

theorem inDirectory_of_walk {files : Files} {path : String} {place : Place}
    (h : files.walk path = .ok place) : files.InDirectory place := by
  unfold walk at h
  split at h
  · cases h
  · refine inDirectory_foldlM_step (.inl ?_) h
    rw [hasDirectory_iff, Place.start]
    left
    split <;> rfl

/-- The directories above a name in a directory are there already. -/
theorem InDirectory.hasDirectory_above {files : Files} {place above : Place}
    (h : files.InDirectory place) (hbelow : place.isBelow above = true) :
    files.hasDirectory above = true := by
  rcases h with hdir | ⟨dir, name, hdir, rfl⟩
  · exact Files.hasDirectory_above hdir hbelow
  · obtain ⟨hanchor, names, hne, hnames⟩ := (Place.isBelow_iff _ _).mp hbelow
    obtain hnil | ⟨names, last, rfl⟩ := List.eq_nil_or_concat names
    · exact absurd hnil hne
    · rw [List.concat_eq_append, ← List.append_assoc] at hnames
      obtain ⟨hnames, _⟩ := List.append_inj' hnames rfl
      by_cases hnil : names = []
      · have habove : above = dir := by
          rw [hnil, List.append_nil] at hnames
          cases above
          cases dir
          simp only [Place.mk.injEq]
          exact ⟨hanchor.symm, hnames.symm⟩
        rw [habove]
        exact hdir
      · exact Files.hasDirectory_above hdir
          ((Place.isBelow_iff _ _).mpr ⟨hanchor, names, hnil, hnames⟩)

/-! ## Writing -/

theorem write_eq_ok_iff (files written : Files) (path : String) (content : ByteArray) :
    files.write path content = .ok written ↔
      ∃ place, files.walk path = .ok place ∧ files.hasDirectory place = false ∧
        endsInSlash path = false ∧ place.hasLongName = false ∧
        written = files.put place content := by
  rw [write, bind_eq_ok_iff]
  unfold writeAt
  constructor
  · intro h
    obtain ⟨place, hwalk, h⟩ := h
    split at h
    · cases h
    · next hdir =>
      split at h
      · cases h
      · next hlong =>
        simp only [Bool.or_eq_true, not_or, Bool.not_eq_true] at hdir hlong
        exact ⟨place, hwalk, hdir.1, hdir.2, hlong, (Except.ok.inj h).symm⟩
  · intro h
    obtain ⟨place, hwalk, hdir, hslash, hlong, rfl⟩ := h
    exact ⟨place, hwalk, by simp [hdir, hslash, hlong]⟩

theorem hasDirectory_put {files : Files} {place : Place} (h : files.InDirectory place)
    (content : ByteArray) (other : Place) :
    (files.put place content).hasDirectory other = files.hasDirectory other := by
  rw [Bool.eq_iff_iff, hasDirectory_iff, hasDirectory_iff]
  simp only [content?_put]
  constructor
  · rintro (hnil | ⟨file, hfile, hbelow⟩)
    · exact .inl hnil
    · by_cases hplace : file = place
      · rw [hplace] at hbelow
        exact (hasDirectory_iff _ _).mp (h.hasDirectory_above hbelow)
      · rw [if_neg hplace] at hfile
        exact .inr ⟨file, hfile, hbelow⟩
  · rintro (hnil | ⟨file, hfile, hbelow⟩)
    · exact .inl hnil
    · refine .inr ⟨file, ?_, hbelow⟩
      split
      · rfl
      · exact hfile

/-- Where a path leads is decided by the directories. -/
theorem walk_of_hasDirectory {files others : Files} (h : others.hasDirectory = files.hasDirectory)
    {path : String} {place : Place} (hwalk : files.walk path = .ok place) :
    others.walk path = .ok place := by
  have hfold (parts : List String) (start : Place)
      (hparts : parts.foldlM files.step start = .ok place) :
      parts.foldlM others.step start = .ok place := by
    induction parts generalizing start with
    | nil => exact hparts
    | cons part parts ih =>
      rw [List.foldlM_cons, bind_eq_ok_iff] at hparts ⊢
      obtain ⟨next, hstep, hrest⟩ := hparts
      rw [step_eq_ok_iff, ← h, ← step_eq_ok_iff] at hstep
      exact ⟨next, hstep, ih next hrest⟩
  unfold walk at hwalk ⊢
  split at hwalk
  · cases hwalk
  · next hlimit =>
    rw [if_neg hlimit]
    exact hfold _ _ hwalk

/-- What was written at a path is read there. -/
theorem read_of_write {files written : Files} {path : String} {content : ByteArray}
    (h : files.write path content = .ok written) : written.read path = .ok content := by
  obtain ⟨place, hwalk, hdir, hslash, hlong, rfl⟩ := (write_eq_ok_iff _ _ _ _).mp h
  have hsame : (files.put place content).hasDirectory = files.hasDirectory :=
    funext (hasDirectory_put (inDirectory_of_walk hwalk) content)
  rw [read, walk_of_hasDirectory hsame hwalk]
  show (files.put place content).readAt place (endsInSlash path) = .ok content
  rw [readAt, hsame, hdir, hlong, hslash, content?_put, if_pos rfl]
  rfl

/-- A write changes the content of the place that the path leads to, and no other. -/
theorem content?_of_write {files written : Files} {path : String} {content : ByteArray}
    (h : files.write path content = .ok written) {place : Place}
    (hplace : written.content? place ≠ files.content? place) : files.walk path = .ok place := by
  obtain ⟨target, hwalk, _, _, _, rfl⟩ := (write_eq_ok_iff _ _ _ _).mp h
  rw [content?_put] at hplace
  by_cases hsame : place = target
  · rw [hsame]
    exact hwalk
  · rw [if_neg hsame] at hplace
    exact absurd rfl hplace

end Files

end Mips
