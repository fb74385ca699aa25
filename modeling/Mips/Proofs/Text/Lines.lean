import Mips.Text.Split

/-! # Lines of written text

A text made of lines, each with a line end after it, is cut into these lines again.

* `not_lineFeed_of_mem_lines`: a line holds no line feed.
* `lines_append`: the first line of a text, with a line feed after it or a carriage return and a
  line feed, and then the lines of the text that follows.
* `lines_join`: the same for a list of lines. -/

namespace Mips.Text
set_option autoImplicit false

/-- A text that a line end can follow without a change to it: it holds no line feed, and a carriage
return at its end would be taken for a part of the line end. -/
structure IsLine (s : String) : Prop where
  not_lineFeed : '\n' ∉ s.toList
  not_ends_return : s.toList.getLast? ≠ some '\r'

theorem isLine_append {a b : String} (ha : '\n' ∉ a.toList) (hb : IsLine b) (hne : b ≠ "") :
    IsLine (a ++ b) := by
  have hchars : b.toList ≠ [] := fun h => hne (String.toList_eq_nil_iff.mp h)
  refine ⟨?_, ?_⟩
  · rw [String.toList_append, List.mem_append]
    rintro (h | h)
    · exact ha h
    · exact hb.not_lineFeed h
  · have hlast := hb.not_ends_return
    rw [List.getLast?_eq_some_getLast hchars] at hlast
    rw [String.toList_append, List.getLast?_append, List.getLast?_eq_some_getLast hchars,
      Option.some_or]
    exact hlast

/-- The characters of a line go in front of the first line of the scan. -/
theorem foldr_push_of_not_lineFeed (cs first : List Char) (rest : List (List Char)) (flag : Bool)
    (hfeed : '\n' ∉ cs) (hreturn : flag = true → cs.getLast? ≠ some '\r') :
    cs.foldr LineScan.push ⟨first :: rest, flag⟩ =
      ⟨(cs ++ first) :: rest, flag && cs.isEmpty⟩ := by
  induction cs with
  | nil => simp
  | cons c cs ih =>
    have hc : (c == '\n') = false := by
      rw [beq_eq_false_iff_ne]
      intro h
      exact hfeed (by rw [h]; exact List.mem_cons_self ..)
    have hcs : flag = true → cs.getLast? ≠ some '\r' := by
      intro hflag hlast
      cases cs with
      | nil => cases hlast
      | cons d cs =>
        apply hreturn hflag
        rw [List.getLast?_cons_cons]
        exact hlast
    -- Only the last character of the line stands right before the line feed.
    have hkeep : (c == '\r' && (flag && cs.isEmpty)) = false := by
      cases flag with
      | false => simp
      | true =>
        cases cs with
        | nil => simpa using hreturn rfl
        | cons d cs => simp
    rw [List.foldr_cons, ih (fun h => hfeed (List.mem_cons_of_mem c h)) hcs, LineScan.push, hc,
      hkeep]
    simp [prependToFirst]

theorem not_lineFeed_of_mem_foldr_push (cs : List Char) :
    ∀ line ∈ (cs.foldr LineScan.push ⟨[], false⟩).lines, '\n' ∉ line := by
  induction cs with
  | nil => simp
  | cons c cs ih =>
    rw [List.foldr_cons, LineScan.push]
    split
    · intro line hline
      rcases List.mem_cons.mp hline with rfl | hline
      · exact List.not_mem_nil
      · exact ih line hline
    · next hfeed =>
      have hc : '\n' ≠ c := fun h => hfeed (beq_iff_eq.mpr h.symm)
      split
      · exact ih
      · cases hlines : (cs.foldr LineScan.push ⟨[], false⟩).lines with
        | nil => simpa [prependToFirst] using hc
        | cons first rest =>
          rw [hlines] at ih
          simpa [prependToFirst, hc] using ih

theorem not_lineFeed_of_mem_lines {s line : String} (h : line ∈ lines s) :
    '\n' ∉ line.toList := by
  obtain ⟨cs, hcs, rfl⟩ := List.mem_map.mp h
  rw [String.toList_ofList]
  exact not_lineFeed_of_mem_foldr_push s.toList cs hcs

theorem lines_append (line ending rest : String) (hline : IsLine line)
    (hending : ending = "\n" ∨ ending = "\r\n") :
    lines (line ++ ending ++ rest) = line :: lines rest := by
  have hfold : ∃ flag, ending.toList.foldr LineScan.push
      (rest.toList.foldr LineScan.push ⟨[], false⟩) = ⟨[] :: lineChars rest.toList, flag⟩ := by
    rcases hending with rfl | rfl
    · exact ⟨true, rfl⟩
    · exact ⟨false, rfl⟩
  obtain ⟨flag, hflag⟩ := hfold
  have hchars : lineChars (line ++ ending ++ rest).toList =
      line.toList :: lineChars rest.toList := by
    rw [lineChars, String.toList_append, String.toList_append, List.foldr_append,
      List.foldr_append, hflag, foldr_push_of_not_lineFeed _ _ _ _ hline.not_lineFeed
        fun _ => hline.not_ends_return, List.append_nil]
  rw [lines, hchars, List.map_cons, String.ofList_toList]
  rfl

theorem lines_join (texts : List String) (h : ∀ text ∈ texts, IsLine text) :
    lines (String.join (texts.map (· ++ "\n"))) = texts := by
  induction texts with
  | nil => rfl
  | cons text texts ih =>
    rw [List.map_cons, String.join_cons,
      lines_append text "\n" _ (h text (List.mem_cons_self ..)) (.inl rfl),
      ih fun other hother => h other (List.mem_cons_of_mem text hother)]

end Mips.Text
