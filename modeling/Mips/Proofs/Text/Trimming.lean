import Mathlib.Data.List.TakeWhile
import Mips.Proofs.Text.Lines
import Mips.Proofs.Text.Tokens

/-! # Trimmed text

* `exists_trimChars`: trimming takes blank characters from both ends, and leaves a text that starts
  and ends with none (`not_isBlank_of_head?_trimChars`, `not_isBlank_of_getLast?_trimChars`).
* `trimRightChars_append_cons`: trimming at the right leaves alone what stands before the last
  character that is not blank.
* `TrimsTo s core`, `trimsTo_iff`: a text is blank characters around one text that neither starts nor
  ends with any, and trimming finds it.
* `fields_trim`: a trimmed text has the same fields.
* `fields_of_trim`: a trimmed text is empty if it has no fields, and starts with its first field. -/

namespace Mips.Text
set_option autoImplicit false

theorem exists_trimRightChars (cs : List Char) :
    ∃ after, cs = trimRightChars cs ++ after ∧ ∀ c ∈ after, isBlank c = true := by
  refine ⟨(cs.reverse.takeWhile isBlank).reverse, ?_, ?_⟩
  · rw [trimRightChars, ← List.reverse_append, List.takeWhile_append_dropWhile,
      List.reverse_reverse]
  · intro c hc
    exact List.mem_takeWhile_imp (List.mem_reverse.mp hc)

theorem exists_trimChars (cs : List Char) :
    ∃ before after, cs = before ++ trimChars cs ++ after ∧ (∀ c ∈ before, isBlank c = true) ∧
      ∀ c ∈ after, isBlank c = true := by
  obtain ⟨after, hafter, hblank⟩ := exists_trimRightChars (cs.dropWhile isBlank)
  refine ⟨cs.takeWhile isBlank, after, ?_, fun c => List.mem_takeWhile_imp, hblank⟩
  rw [List.append_assoc, trimChars, ← hafter, List.takeWhile_append_dropWhile]

theorem not_isBlank_of_head?_trimChars {cs : List Char} {c : Char}
    (h : (trimChars cs).head? = some c) : isBlank c = false := by
  obtain ⟨after, hafter, -⟩ := exists_trimRightChars (cs.dropWhile isBlank)
  have hhead : (cs.dropWhile isBlank).head? = some c := by
    rw [hafter, List.head?_append]
    exact Option.or_eq_some_iff.mpr (.inl h)
  have hstop := List.head?_dropWhile_not isBlank cs
  rw [hhead] at hstop
  simpa using hstop

theorem not_isBlank_of_getLast?_trimRightChars {cs : List Char} {c : Char}
    (h : (trimRightChars cs).getLast? = some c) : isBlank c = false := by
  rw [trimRightChars, List.getLast?_reverse] at h
  have hstop := List.head?_dropWhile_not isBlank cs.reverse
  rw [h] at hstop
  simpa using hstop

theorem exists_of_trimRightChars_ne_nil {cs : List Char} (h : trimRightChars cs ≠ []) :
    ∃ before last, trimRightChars cs = before ++ [last] ∧ isBlank last = false :=
  ⟨_, _, (List.dropLast_concat_getLast h).symm,
    not_isBlank_of_getLast?_trimRightChars (List.getLast?_eq_some_getLast h)⟩

theorem not_isBlank_of_getLast?_trimChars {cs : List Char} {c : Char}
    (h : (trimChars cs).getLast? = some c) : isBlank c = false :=
  not_isBlank_of_getLast?_trimRightChars h

/-- Trimming at the right stops at a character that is not blank, whatever stands before it. -/
theorem trimRightChars_append_cons (before after : List Char) (c : Char) (hc : isBlank c = false) :
    trimRightChars (before ++ c :: after) = before ++ c :: trimRightChars after := by
  have hreverse : (before ++ c :: after).reverse = after.reverse ++ c :: before.reverse := by simp
  have hstop : (c :: before.reverse).dropWhile isBlank = c :: before.reverse := by
    rw [List.dropWhile_cons, hc, if_neg Bool.false_ne_true]
  rw [trimRightChars, trimRightChars, hreverse, List.dropWhile_append, hstop]
  split
  · next hempty =>
    rw [List.isEmpty_iff.mp hempty]
    simp
  · simp

theorem mem_of_mem_trimRightChars {cs : List Char} {c : Char} (h : c ∈ trimRightChars cs) :
    c ∈ cs := by
  obtain ⟨after, hafter, -⟩ := exists_trimRightChars cs
  rw [hafter]
  exact List.mem_append_left after h

theorem mem_of_mem_trimChars {cs : List Char} {c : Char} (h : c ∈ trimChars cs) : c ∈ cs := by
  obtain ⟨before, after, hchars, -, -⟩ := exists_trimChars cs
  rw [hchars, List.mem_append, List.mem_append]
  exact .inl (.inr h)

theorem isLine_trim {line : String} (h : '\n' ∉ line.toList) : IsLine (trim line) := by
  refine ⟨?_, ?_⟩
  · rw [trim, String.toList_ofList]
    exact fun hmem => h (mem_of_mem_trimChars hmem)
  · rw [trim, String.toList_ofList]
    intro hlast
    exact absurd (not_isBlank_of_getLast?_trimChars hlast) (by decide)

/-! ## The text inside -/

/-- A text that neither starts nor ends with a blank character. -/
structure IsTrimmed (s : String) : Prop where
  head : ∀ c, s.toList.head? = some c → isBlank c = false
  last : ∀ c, s.toList.getLast? = some c → isBlank c = false

/-- `core` is `s` without the blank characters around it. -/
structure TrimsTo (s core : String) : Prop where
  isTrimmed : IsTrimmed core
  around : ∃ before after, s.toList = before ++ core.toList ++ after ∧
    (∀ c ∈ before, isBlank c = true) ∧ ∀ c ∈ after, isBlank c = true

theorem isTrimmed_of_not_isBlank {s : String} (h : ∀ c ∈ s.toList, isBlank c = false) :
    IsTrimmed s :=
  ⟨fun c hc => h c (List.mem_of_head? hc), fun c hc => h c (List.mem_of_getLast? hc)⟩

theorem isTrimmed_trim (s : String) : IsTrimmed (trim s) := by
  refine ⟨?_, ?_⟩
  · intro c hc
    rw [trim, String.toList_ofList] at hc
    exact not_isBlank_of_head?_trimChars hc
  · intro c hc
    rw [trim, String.toList_ofList] at hc
    exact not_isBlank_of_getLast?_trimChars hc

theorem trimRightChars_append_of_isBlank (cs after : List Char)
    (h : ∀ c ∈ after, isBlank c = true) : trimRightChars (cs ++ after) = trimRightChars cs := by
  rw [trimRightChars, trimRightChars, List.reverse_append, List.dropWhile_append_of_pos]
  intro c hc
  exact h c (List.mem_reverse.mp hc)

theorem trimRightChars_eq_self {cs : List Char}
    (h : ∀ c, cs.getLast? = some c → isBlank c = false) : trimRightChars cs = cs := by
  rcases List.eq_nil_or_concat cs with rfl | ⟨before, last, rfl⟩
  · rfl
  · rw [List.concat_eq_append] at h ⊢
    exact trimRightChars_append_cons before [] last (h last List.getLast?_concat)

theorem trimChars_of_around (before core after : List Char)
    (hbefore : ∀ c ∈ before, isBlank c = true) (hafter : ∀ c ∈ after, isBlank c = true)
    (hhead : ∀ c, core.head? = some c → isBlank c = false)
    (hlast : ∀ c, core.getLast? = some c → isBlank c = false) :
    trimChars (before ++ core ++ after) = core := by
  rw [trimChars, List.append_assoc, List.dropWhile_append_of_pos hbefore]
  cases core with
  | nil =>
    -- All characters are blank, and the left end takes them all.
    rw [List.nil_append, List.dropWhile_eq_nil_iff.mpr hafter]
    rfl
  | cons c core =>
    have hstop : ¬ isBlank c = true := by
      rw [hhead c rfl]
      exact Bool.false_ne_true
    rw [List.cons_append, List.dropWhile_cons_of_neg hstop, ← List.cons_append,
      trimRightChars_append_of_isBlank _ _ hafter, trimRightChars_eq_self hlast]

theorem trimsTo_iff (s core : String) : TrimsTo s core ↔ trim s = core := by
  constructor
  · rintro ⟨⟨hhead, hlast⟩, before, after, hs, hbefore, hafter⟩
    rw [trim, hs, trimChars_of_around before core.toList after hbefore hafter hhead hlast,
      String.ofList_toList]
  · rintro rfl
    obtain ⟨before, after, hs, hbefore, hafter⟩ := exists_trimChars s.toList
    refine ⟨isTrimmed_trim s, before, after, ?_, hbefore, hafter⟩
    rw [trim, String.toList_ofList]
    exact hs

theorem trim_eq_self {s : String} (h : IsTrimmed s) : trim s = s :=
  (trimsTo_iff s s).mp ⟨h, [], [], by simp, by simp, by simp⟩

/-! ## Fields -/

theorem runs_append_separators (isSeparator : Char → Bool) (cs separators : List Char)
    (h : ∀ c ∈ separators, isSeparator c = true) :
    runs isSeparator (cs ++ separators) = runs isSeparator cs := by
  cases separators with
  | nil => rw [List.append_nil]
  | cons c separators =>
    have hnone : runs isSeparator separators = [] := by
      have hruns := runs_separators_append isSeparator separators []
        fun d hd => h d (List.mem_cons_of_mem c hd)
      rw [List.append_nil] at hruns
      exact hruns
    rw [runs_append_cons isSeparator cs separators c (h c (List.mem_cons_self ..)), hnone,
      List.append_nil]

theorem fields_trim (s : String) : fields (trim s) = fields s := by
  obtain ⟨before, after, hchars, hbefore, hafter⟩ := exists_trimChars s.toList
  have hruns : runs isBlank s.toList = runs isBlank (trimChars s.toList) := by
    calc runs isBlank s.toList
        = runs isBlank (before ++ (trimChars s.toList ++ after)) := by
          rw [← List.append_assoc, ← hchars]
      _ = runs isBlank (trimChars s.toList ++ after) :=
          runs_separators_append isBlank _ _ hbefore
      _ = runs isBlank (trimChars s.toList) := runs_append_separators isBlank _ _ hafter
  rw [fields, fields, hruns, trim, String.toList_ofList]

/-- A trimmed text that is not empty opens a comment if its first field does. -/
theorem fields_of_trim (s : String) :
    (trim s = "" ∧ fields s = []) ∨
      ∃ first rest, trim s ≠ "" ∧ fields s = first :: rest ∧
        opensComment first = opensComment (trim s) := by
  rw [← fields_trim]
  cases hchars : (trim s).toList with
  | nil =>
    left
    have hempty := String.toList_eq_nil_iff.mp hchars
    rw [hempty]
    exact ⟨rfl, rfl⟩
  | cons c cs =>
    right
    have hc : isBlank c = false := by
      apply @not_isBlank_of_head?_trimChars s.toList
      rw [trim, String.toList_ofList] at hchars
      rw [hchars]
      rfl
    obtain ⟨run, others, hruns⟩ := runs_cons_of_not_separator isBlank c cs hc
    refine ⟨String.ofList (c :: run), others.map String.ofList, ?_, ?_, ?_⟩
    · intro hempty
      rw [hempty] at hchars
      cases hchars
    · rw [fields, hchars, hruns, List.map_cons]
    · rw [opensComment, opensComment, hchars, String.toList_ofList]
      rfl

end Mips.Text
