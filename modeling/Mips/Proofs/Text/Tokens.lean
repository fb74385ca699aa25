import Mips.Text.Case
import Mips.Text.Split

/-! # Tokens of written text

A text made of tokens with separators between them is cut into these tokens again.

* `runs_append`: at a nonempty stretch of separators, the runs of a text are those before it and
  those after it.
* `tokens_append`, `tokens_intercalate`: the same for strings, and for a list of tokens.
* `Writes tail tokens text`: a text shows tokens with any separators around them, and then a tail.
  Such a text has these tokens and those of the tail (`tokens_of_writes`), and every text shows its
  own tokens (`writes_iff_tokens_eq`).
* `fields_intercalate`, `isField_of_mem_fields`: fields are written with spaces between them, and
  whatever a text is cut into is a field. -/

namespace Mips.Text
set_option autoImplicit false

/-! ## Runs -/

section Runs
variable (isSeparator : Char → Bool)

theorem closeRun_append (run : List Char) (before after : List (List Char)) :
    closeRun run (before ++ after) = closeRun run before ++ after := by
  unfold closeRun
  cases run.isEmpty <;> rfl

/-- Runs further to the right are carried along. -/
theorem foldr_pushRun_append (cs : List Char) (after : List (List Char)) :
    cs.foldr (pushRun isSeparator) ([], after) =
      ((cs.foldr (pushRun isSeparator) ([], [])).1,
        (cs.foldr (pushRun isSeparator) ([], [])).2 ++ after) := by
  induction cs with
  | nil => rfl
  | cons c cs ih =>
    rw [List.foldr_cons, List.foldr_cons, ih, pushRun, pushRun]
    by_cases hc : isSeparator c = true
    · rw [if_pos hc, if_pos hc, closeRun_append]
    · rw [if_neg hc, if_neg hc]

theorem runs_cons_separator (c : Char) (cs : List Char) (hc : isSeparator c = true) :
    runs isSeparator (c :: cs) = runs isSeparator cs := by
  simp only [runs, List.foldr_cons, pushRun, hc, if_true]
  rfl

theorem runs_append_cons (before after : List Char) (c : Char) (hc : isSeparator c = true) :
    runs isSeparator (before ++ c :: after) =
      runs isSeparator before ++ runs isSeparator after := by
  have hafter : (c :: after).foldr (pushRun isSeparator) ([], []) =
      ([], runs isSeparator after) := by
    rw [List.foldr_cons, pushRun, if_pos hc]
    rfl
  simp only [runs, List.foldr_append]
  rw [hafter, foldr_pushRun_append, closeRun_append]
  rfl

theorem runs_separators_append (separators cs : List Char)
    (h : ∀ c ∈ separators, isSeparator c = true) :
    runs isSeparator (separators ++ cs) = runs isSeparator cs := by
  induction separators with
  | nil => rfl
  | cons c separators ih =>
    rw [List.cons_append, runs_cons_separator isSeparator c _ (h c (List.mem_cons_self ..))]
    exact ih fun d hd => h d (List.mem_cons_of_mem c hd)

theorem runs_append (before separators after : List Char) (hne : separators ≠ [])
    (h : ∀ c ∈ separators, isSeparator c = true) :
    runs isSeparator (before ++ separators ++ after) =
      runs isSeparator before ++ runs isSeparator after := by
  cases separators with
  | nil => exact absurd rfl hne
  | cons c separators =>
    rw [List.append_assoc, List.cons_append,
      runs_append_cons isSeparator _ _ c (h c (List.mem_cons_self ..)),
      runs_separators_append isSeparator _ _ fun d hd => h d (List.mem_cons_of_mem c hd)]

theorem runs_eq_singleton (cs : List Char) (hne : cs ≠ [])
    (h : ∀ c ∈ cs, isSeparator c = false) : runs isSeparator cs = [cs] := by
  have hfold : cs.foldr (pushRun isSeparator) ([], []) = (cs, []) := by
    clear hne
    induction cs with
    | nil => rfl
    | cons c cs ih =>
      rw [List.foldr_cons, ih fun d hd => h d (List.mem_cons_of_mem c hd), pushRun,
        if_neg (by rw [h c (List.mem_cons_self ..)]; exact Bool.false_ne_true)]
  simp only [runs, hfold]
  unfold closeRun
  rw [if_neg (by simpa using hne)]

/-- A run goes on up to the end of the text or to a separator. -/
theorem runs_append_of_ends (run rest : List Char) (hne : run ≠ [])
    (hrun : ∀ c ∈ run, isSeparator c = false) (hend : rest.head?.all isSeparator = true) :
    runs isSeparator (run ++ rest) = run :: runs isSeparator rest := by
  have hfirst := runs_eq_singleton isSeparator run hne hrun
  cases rest with
  | nil =>
    rw [List.append_nil, hfirst]
    rfl
  | cons c rest =>
    have hc : isSeparator c = true := by simpa using hend
    rw [runs_append_cons isSeparator run rest c hc, runs_cons_separator isSeparator c rest hc,
      hfirst]
    rfl

theorem runs_cons_of_not_separator (c : Char) (cs : List Char) (hc : isSeparator c = false) :
    ∃ run others, runs isSeparator (c :: cs) = (c :: run) :: others := by
  simp only [runs, List.foldr_cons, pushRun, hc, Bool.false_eq_true, if_false]
  exact ⟨_, _, rfl⟩

theorem map_runs_eq_singleton {s : String} (hne : s ≠ "")
    (h : ∀ c ∈ s.toList, isSeparator c = false) :
    (runs isSeparator s.toList).map String.ofList = [s] := by
  rw [runs_eq_singleton isSeparator s.toList (mt String.toList_eq_nil_iff.mp hne) h]
  simp

theorem map_runs_append (before separators after : String) (hne : separators ≠ "")
    (h : separators.toList.all isSeparator = true) :
    (runs isSeparator (before ++ separators ++ after).toList).map String.ofList =
      (runs isSeparator before.toList).map String.ofList ++
        (runs isSeparator after.toList).map String.ofList := by
  simp only [String.toList_append]
  rw [runs_append isSeparator _ _ _ (mt String.toList_eq_nil_iff.mp hne) (List.all_eq_true.mp h),
    List.map_append]

theorem map_runs_intercalate (separators : String) (hne : separators ≠ "")
    (h : separators.toList.all isSeparator = true) (texts : List String)
    (htexts : ∀ text ∈ texts, text ≠ "" ∧ ∀ c ∈ text.toList, isSeparator c = false) :
    (runs isSeparator (separators.intercalate texts).toList).map String.ofList = texts := by
  induction texts with
  | nil => rfl
  | cons text rest ih =>
    obtain ⟨htext, hchars⟩ := htexts text (List.mem_cons_self ..)
    have hfirst := map_runs_eq_singleton isSeparator htext hchars
    have hrest := ih fun other hother => htexts other (List.mem_cons_of_mem text hother)
    cases rest with
    | nil => rw [String.intercalate_singleton, hfirst]
    | cons second rest =>
      rw [String.intercalate_cons_cons, map_runs_append isSeparator _ _ _ hne h, hfirst, hrest]
      rfl

theorem of_mem_closeRun {run first : List Char} {others : List (List Char)}
    (h : run ∈ closeRun first others) : (run = first ∧ run ≠ []) ∨ run ∈ others := by
  unfold closeRun at h
  split at h
  · exact .inr h
  · next hne =>
    rcases List.mem_cons.mp h with heq | hmem
    · rw [heq]
      exact .inl ⟨rfl, by simpa using hne⟩
    · exact .inr hmem

theorem of_mem_foldr_pushRun (cs : List Char) :
    (∀ c ∈ (cs.foldr (pushRun isSeparator) ([], [])).1, isSeparator c = false) ∧
      ∀ run ∈ (cs.foldr (pushRun isSeparator) ([], [])).2,
        run ≠ [] ∧ ∀ c ∈ run, isSeparator c = false := by
  induction cs with
  | nil =>
    exact ⟨fun c hc => (List.not_mem_nil hc).elim, fun run hrun => (List.not_mem_nil hrun).elim⟩
  | cons c cs ih =>
    obtain ⟨hfirst, hothers⟩ := ih
    rw [List.foldr_cons, pushRun]
    by_cases hc : isSeparator c = true
    · rw [if_pos hc]
      refine ⟨fun d hd => (List.not_mem_nil hd).elim, ?_⟩
      intro run hrun
      rcases of_mem_closeRun hrun with ⟨heq, hne⟩ | hmem
      · rw [heq] at hne ⊢
        exact ⟨hne, hfirst⟩
      · exact hothers run hmem
    · rw [if_neg hc]
      refine ⟨?_, hothers⟩
      intro d hd
      rcases List.mem_cons.mp hd with heq | hmem
      · rw [heq]
        exact Bool.not_eq_true _ ▸ hc
      · exact hfirst d hmem

/-- A run is not empty and holds no separator. -/
theorem of_mem_runs {run cs : List Char} (h : run ∈ runs isSeparator cs) :
    run ≠ [] ∧ ∀ c ∈ run, isSeparator c = false := by
  obtain ⟨hfirst, hothers⟩ := of_mem_foldr_pushRun isSeparator cs
  rcases of_mem_closeRun h with ⟨heq, hne⟩ | hmem
  · rw [heq] at hne ⊢
    exact ⟨hne, hfirst⟩
  · exact hothers run hmem

theorem of_mem_map_runs {text piece : String}
    (h : piece ∈ (runs isSeparator text.toList).map String.ofList) :
    piece ≠ "" ∧ ∀ c ∈ piece.toList, isSeparator c = false := by
  obtain ⟨run, hrun, rfl⟩ := List.mem_map.mp h
  obtain ⟨hne, hchars⟩ := of_mem_runs isSeparator hrun
  rw [String.toList_ofList]
  refine ⟨?_, hchars⟩
  intro hempty
  apply hne
  rw [← String.toList_inj, String.toList_ofList] at hempty
  exact hempty

end Runs

/-! ## Tokens -/

/-- A text without separators that is not empty. -/
structure IsToken (s : String) : Prop where
  ne_empty : s ≠ ""
  not_separator : ∀ c ∈ s.toList, isTokenSeparator c = false

theorem any_eq_false_iff_forall (p : Char → Bool) (cs : List Char) :
    cs.any p = false ↔ ∀ c ∈ cs, p c = false := by
  simp only [List.any_eq_false, Bool.not_eq_true]

theorem isToken_iff (s : String) :
    IsToken s ↔ s ≠ "" ∧ s.toList.any isTokenSeparator = false := by
  rw [any_eq_false_iff_forall]
  exact ⟨fun h => ⟨h.ne_empty, h.not_separator⟩, fun h => ⟨h.1, h.2⟩⟩

instance (s : String) : Decidable (IsToken s) :=
  decidable_of_iff' _ (isToken_iff s)

/-- A token that opens no comment. -/
structure IsPlainToken (s : String) : Prop extends IsToken s where
  not_comment : opensComment s = false

instance (s : String) : Decidable (IsPlainToken s) :=
  decidable_of_iff (IsToken s ∧ opensComment s = false)
    ⟨fun h => ⟨h.1, h.2⟩, fun h => ⟨h.toIsToken, h.not_comment⟩⟩

theorem IsToken.append {a b : String} (ha : IsToken a)
    (hb : ∀ c ∈ b.toList, isTokenSeparator c = false) : IsToken (a ++ b) := by
  refine ⟨?_, ?_⟩
  · intro h
    apply ha.ne_empty
    rw [← String.toList_inj] at h ⊢
    rw [String.toList_append, String.toList_empty, List.append_eq_nil_iff] at h
    exact h.1
  · intro c hc
    rw [String.toList_append, List.mem_append] at hc
    exact hc.elim (ha.not_separator c) (hb c)

theorem isToken_of_mem_tokens {text token : String} (h : token ∈ tokens text) : IsToken token :=
  have ⟨hne, hseparator⟩ := of_mem_map_runs isTokenSeparator h
  ⟨hne, hseparator⟩

theorem tokens_of_isToken {s : String} (h : IsToken s) : tokens s = [s] :=
  map_runs_eq_singleton isTokenSeparator h.ne_empty h.not_separator

theorem tokens_append (before separators after : String) (hne : separators ≠ "")
    (h : separators.toList.all isTokenSeparator = true) :
    tokens (before ++ separators ++ after) = tokens before ++ tokens after :=
  map_runs_append isTokenSeparator before separators after hne h

theorem tokens_intercalate (separators : String) (hne : separators ≠ "")
    (h : separators.toList.all isTokenSeparator = true) (texts : List String)
    (htexts : ∀ text ∈ texts, IsToken text) : tokens (separators.intercalate texts) = texts :=
  map_runs_intercalate isTokenSeparator separators hne h texts fun text htext =>
    ⟨(htexts text htext).ne_empty, (htexts text htext).not_separator⟩

/-! ## Tokens with any separators around them -/

def IsGap (s : String) : Prop :=
  s.toList.all isTokenSeparator = true

/-- No token goes on in a text: it is empty, or it starts with a separator. -/
def EndsToken (s : String) : Prop :=
  s.toList.head?.all isTokenSeparator = true

instance (s : String) : Decidable (IsGap s) :=
  inferInstanceAs (Decidable (_ = true))

instance (s : String) : Decidable (EndsToken s) :=
  inferInstanceAs (Decidable (_ = true))

/-- A text shows tokens and then a tail. Any separators may stand before each token and before the
tail, and after a token there is a separator or the end of the text. -/
inductive Writes (tail : String) : List String → String → Prop
  | tail {gap : String} (hgap : IsGap gap) : Writes tail [] (gap ++ tail)
  | token {gap token rest : String} {tokens : List String} (hgap : IsGap gap)
      (htoken : IsToken token) (hend : EndsToken rest) (hrest : Writes tail tokens rest) :
      Writes tail (token :: tokens) (gap ++ token ++ rest)

theorem tokens_gap_append {gap : String} (hgap : IsGap gap) (text : String) :
    tokens (gap ++ text) = tokens text := by
  simp only [tokens, String.toList_append]
  rw [runs_separators_append isTokenSeparator _ _ (List.all_eq_true.mp hgap)]

theorem tokens_token_append {token rest : String} (htoken : IsToken token)
    (hend : EndsToken rest) : tokens (token ++ rest) = token :: tokens rest := by
  simp only [tokens, String.toList_append]
  rw [runs_append_of_ends isTokenSeparator _ _ (mt String.toList_eq_nil_iff.mp htoken.ne_empty)
    htoken.not_separator hend, List.map_cons, String.ofList_toList]

theorem tokens_of_writes {tail text : String} {shown : List String}
    (h : Writes tail shown text) : tokens text = shown ++ tokens tail := by
  induction h with
  | tail hgap => exact tokens_gap_append hgap tail
  | token hgap htoken hend _ ih =>
    rw [String.append_assoc, tokens_gap_append hgap, tokens_token_append htoken hend, ih]
    rfl

theorem IsGap.append {a b : String} (ha : IsGap a) (hb : IsGap b) : IsGap (a ++ b) := by
  rw [IsGap, String.toList_append, List.all_append, Bool.and_eq_true]
  exact ⟨ha, hb⟩

theorem IsGap.endsToken_append {gap text : String} (hgap : IsGap gap)
    (h : gap ≠ "" ∨ EndsToken text) : EndsToken (gap ++ text) := by
  unfold IsGap EndsToken at *
  rw [String.toList_append]
  cases hchars : gap.toList with
  | nil =>
    rcases h with hne | hend
    · exact absurd (String.toList_eq_nil_iff.mp hchars) hne
    · exact hend
  | cons c cs =>
    rw [hchars, List.all_cons, Bool.and_eq_true] at hgap
    exact hgap.1

theorem Writes.gap_append {tail gap text : String} {shown : List String} (hgap : IsGap gap)
    (h : Writes tail shown text) : Writes tail shown (gap ++ text) := by
  cases h with
  | tail hfirst =>
    rw [← String.append_assoc]
    exact .tail (hgap.append hfirst)
  | token hfirst htoken hend hrest =>
    rw [← String.append_assoc, ← String.append_assoc]
    exact .token (hgap.append hfirst) htoken hend hrest

/-- A character in front of a text makes its first token longer, or is a token of its own. -/
theorem Writes.char_append {text : String} {shown : List String} {c : Char}
    (hc : isTokenSeparator c = false) (h : Writes "" shown text) :
    ∃ others, Writes "" others (String.singleton c ++ text) := by
  have hsingle : IsToken (String.singleton c) := by
    refine ⟨by simp, ?_⟩
    intro d hd
    rw [String.toList_singleton, List.mem_singleton] at hd
    rw [hd]
    exact hc
  have hempty : IsGap "" := rfl
  have hbefore {rest : String} {others : List String} (hend : EndsToken rest)
      (hrest : Writes "" others rest) :
      Writes "" (String.singleton c :: others) (String.singleton c ++ rest) := by
    have hwrites := Writes.token hempty hsingle hend hrest
    rwa [String.empty_append] at hwrites
  cases h with
  | @tail gap hgap =>
    exact ⟨_, hbefore (hgap.endsToken_append (.inr rfl)) (.tail hgap)⟩
  | @token gap token rest others hgap htoken hend hrest =>
    by_cases hnone : gap = ""
    · refine ⟨(String.singleton c ++ token) :: others, ?_⟩
      have hlonger := Writes.token hempty (hsingle.append htoken.not_separator) hend hrest
      rw [String.empty_append] at hlonger
      rwa [hnone, String.empty_append, ← String.append_assoc]
    · have hend' : EndsToken (gap ++ token ++ rest) := by
        rw [String.append_assoc]
        exact hgap.endsToken_append (.inl hnone)
      exact ⟨_, hbefore hend' (.token hgap htoken hend hrest)⟩

theorem exists_writes (text : String) : ∃ shown, Writes "" shown text := by
  have hchars (cs : List Char) : ∃ shown, Writes "" shown (String.ofList cs) := by
    induction cs with
    | nil => exact ⟨[], @Writes.tail "" "" rfl⟩
    | cons c cs ih =>
      obtain ⟨shown, hshown⟩ := ih
      have hcons : String.ofList (c :: cs) = String.singleton c ++ String.ofList cs := by
        rw [← String.toList_inj, String.toList_append, String.toList_ofList, String.toList_ofList,
          String.toList_singleton]
        rfl
      rw [hcons]
      by_cases hc : isTokenSeparator c = true
      · exact ⟨shown, hshown.gap_append (by simp [IsGap, hc])⟩
      · exact hshown.char_append (by simpa using hc)
  have h := hchars text.toList
  rwa [String.ofList_toList] at h

/-- The tokens of a text are the only ones that it shows. -/
theorem writes_iff_tokens_eq (shown : List String) (text : String) :
    Writes "" shown text ↔ tokens text = shown := by
  have hread {shown : List String} (h : Writes "" shown text) : tokens text = shown := by
    rw [tokens_of_writes h]
    exact List.append_nil shown
  constructor
  · exact hread
  · intro h
    obtain ⟨others, hothers⟩ := exists_writes text
    rw [← h, hread hothers]
    exact hothers

theorem tokens_of_opensComment {text : String} (h : opensComment text = true) :
    ∃ first rest, tokens text = first :: rest ∧ opensComment first = true := by
  have hhead : text.toList.head? = some '#' := by simpa [opensComment] using h
  obtain ⟨cs, hcs⟩ := List.head?_eq_some_iff.mp hhead
  obtain ⟨run, others, hruns⟩ := runs_cons_of_not_separator isTokenSeparator '#' cs (by decide)
  refine ⟨String.ofList ('#' :: run), others.map String.ofList, ?_, ?_⟩
  · rw [tokens, hcs, hruns, List.map_cons]
  · simp [opensComment]

/-! ## Fields -/

/-- A text without blank characters that is not empty. -/
structure IsField (s : String) : Prop where
  ne_empty : s ≠ ""
  not_blank : ∀ c ∈ s.toList, isBlank c = false

theorem isField_iff (s : String) : IsField s ↔ s ≠ "" ∧ s.toList.any isBlank = false := by
  rw [any_eq_false_iff_forall]
  exact ⟨fun h => ⟨h.ne_empty, h.not_blank⟩, fun h => ⟨h.1, h.2⟩⟩

instance (s : String) : Decidable (IsField s) :=
  decidable_of_iff' _ (isField_iff s)

theorem IsToken.isField {s : String} (h : IsToken s) : IsField s := by
  refine ⟨h.ne_empty, ?_⟩
  intro c hc
  have hseparator := h.not_separator c hc
  rw [isTokenSeparator, Bool.or_eq_false_iff] at hseparator
  exact hseparator.1

theorem fields_of_isField {s : String} (h : IsField s) : fields s = [s] :=
  map_runs_eq_singleton isBlank h.ne_empty h.not_blank

theorem fields_append (before separators after : String) (hne : separators ≠ "")
    (h : separators.toList.all isBlank = true) :
    fields (before ++ separators ++ after) = fields before ++ fields after :=
  map_runs_append isBlank before separators after hne h

theorem fields_intercalate (texts : List String) (h : ∀ text ∈ texts, IsField text) :
    fields (" ".intercalate texts) = texts :=
  map_runs_intercalate isBlank " " (by decide) (by decide) texts fun text htext =>
    ⟨(h text htext).ne_empty, (h text htext).not_blank⟩

theorem isField_of_mem_fields {text field : String} (h : field ∈ fields text) :
    IsField field :=
  have ⟨hne, hblank⟩ := of_mem_map_runs isBlank h
  ⟨hne, hblank⟩

theorem mem_intercalate {separator : String} {texts : List String} {c : Char}
    (h : c ∈ (separator.intercalate texts).toList) :
    c ∈ separator.toList ∨ ∃ text ∈ texts, c ∈ text.toList := by
  induction texts with
  | nil => cases h
  | cons text rest ih =>
    cases rest with
    | nil =>
      rw [String.intercalate_singleton] at h
      exact .inr ⟨text, List.mem_cons_self .., h⟩
    | cons second rest =>
      rw [String.intercalate_cons_cons, String.toList_append, String.toList_append,
        List.mem_append, List.mem_append] at h
      rcases h with (h | h) | h
      · exact .inr ⟨text, List.mem_cons_self .., h⟩
      · exact .inl h
      · rcases ih h with hseparator | ⟨other, hother, hc⟩
        · exact .inl hseparator
        · exact .inr ⟨other, List.mem_cons_of_mem text hother, hc⟩

end Mips.Text
