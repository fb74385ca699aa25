import Mathlib.Data.List.TakeWhile
import Mips.Proofs.Source.Declarations
import Mips.Proofs.Text.Tokens

/-! # Lines that differ in their spelling

Separators, comments and the letter case of a mnemonic do not change what a line asks for.

* `Statement.Respelled`: two lists of tokens that are equal up to the letter case of the mnemonic.
* `Statement.SameUpToSpelling line line'`: the tokens before the comments of two lines are such.
  Lines that show the same tokens with other separators and another comment are an example
  (`Statement.sameUpToSpelling_of_writes`).
* `Statement.Alike`: the statements of two such lines (`Statement.alike_parse`). -/

namespace Mips
set_option autoImplicit false

/-! ## Labels and letter case -/

theorem toLower_eq_colon {c : Char} (h : c.toLower = ':') : c = ':' := by
  have hvalue : c.toLower.toNat = 58 := congrArg Char.toNat h
  rw [Text.toNat_toLower] at hvalue
  apply Char.toNat_inj.mp
  show c.toNat = 58
  split at hvalue <;> omega

namespace Statement

theorem labelOf?_eq_none_iff (token : String) :
    labelOf? token = none ↔ token.toList.getLast? ≠ some ':' := by
  rw [← List.head?_reverse, labelOf?]
  split
  · next name hreverse => simp [hreverse]
  · next hcolon =>
    simp only [ne_eq, true_iff]
    intro hhead
    obtain ⟨name, hname⟩ := List.head?_eq_some_iff.mp hhead
    exact hcolon name hname

/-- A token that is a label stays one in another letter case. -/
theorem labelOf?_eq_none_of_foldCase {token token' : String}
    (hcase : Text.foldCase token = Text.foldCase token') (h : labelOf? token = none) :
    labelOf? token' = none := by
  rw [labelOf?_eq_none_iff] at h ⊢
  intro hcolon
  apply h
  have hlast := congrArg (fun s => s.toList.getLast?) hcase
  simp only [Text.foldCase, String.toList_ofList, List.getLast?_map, hcolon, Option.map_some]
    at hlast
  obtain ⟨c, hc, hlower⟩ := Option.map_eq_some_iff.mp hlast
  rw [hc, toLower_eq_colon hlower]

/-! ## Tokens before a comment -/

/-- The tokens of a line that are not part of a comment. -/
def significantTokens (line : String) : List String :=
  beforeComment (Text.tokens line)

theorem beforeComment_beforeComment (tokens : List String) :
    beforeComment (beforeComment tokens) = beforeComment tokens :=
  List.takeWhile_idem

/-- No tokens, or a token that opens a comment and what follows it. -/
def IsComment (tokens : List String) : Prop :=
  ∀ first, tokens.head? = some first → Text.opensComment first = true

theorem isComment_tokens {comment : String}
    (h : comment = "" ∨ Text.opensComment comment = true) : IsComment (Text.tokens comment) := by
  intro first hfirst
  rcases h with rfl | hopens
  · cases hfirst
  · obtain ⟨word, rest, htext, hword⟩ := Text.tokens_of_opensComment hopens
    rw [htext] at hfirst
    cases hfirst
    exact hword

theorem beforeComment_append_comment {tokens comment : List String}
    (htokens : ∀ token ∈ tokens, Text.opensComment token = false)
    (hcomment : IsComment comment) : beforeComment (tokens ++ comment) = tokens := by
  have hnone : beforeComment comment = [] := by
    cases comment with
    | nil => rfl
    | cons first rest => simp [beforeComment, hcomment first rfl]
  have htake : beforeComment (tokens ++ comment) = tokens ++ beforeComment comment := by
    apply List.takeWhile_append_of_pos
    intro token htoken
    simp [htokens token htoken]
  rw [htake, hnone, List.append_nil]

theorem bodyOf_beforeComment (tokens : List String) :
    bodyOf (beforeComment tokens) = bodyOf tokens := by
  rw [bodyOf, beforeComment_beforeComment, bodyOf]

/-- Either a comment leaves nothing of a line, or the line is as it would be without its comment. -/
theorem ofTokens_cases (tokens : List String) :
    (beforeComment tokens = [] ∧
      (ofTokens tokens = (none, .blank) ∨ ofTokens tokens = (none, .comment))) ∨
    (beforeComment tokens ≠ [] ∧ ofTokens tokens = ofTokens (beforeComment tokens)) := by
  cases tokens with
  | nil => exact .inl ⟨rfl, .inl rfl⟩
  | cons first rest =>
    by_cases hcomment : Text.opensComment first = true
    · left
      refine ⟨?_, .inr ?_⟩
      · simp [beforeComment, hcomment]
      · simp only [ofTokens, hcomment, if_true]
    · right
      have hbefore : beforeComment (first :: rest) = first :: beforeComment rest := by
        simp [beforeComment, hcomment]
      have hbody := bodyOf_beforeComment (first :: rest)
      rw [hbefore] at hbody ⊢
      refine ⟨List.cons_ne_nil _ _, ?_⟩
      simp only [ofTokens, hcomment, Bool.false_eq_true, if_false, bodyOf_beforeComment, hbody]

/-! ## Lines that ask for the same -/

/-- Two lists of tokens that are equal, or differ in the letter case of the mnemonic alone. The
mnemonic is the first token if that is no label, and the second token otherwise. -/
inductive Respelled : List String → List String → Prop
  | same (tokens : List String) : Respelled tokens tokens
  | unlabelled {mnemonic mnemonic' : String} (operands : List String)
      (hlabel : labelOf? mnemonic = none)
      (hcase : Text.foldCase mnemonic = Text.foldCase mnemonic') :
      Respelled (mnemonic :: operands) (mnemonic' :: operands)
  | labelled {label mnemonic mnemonic' : String} (operands : List String)
      (hlabel : labelOf? label ≠ none)
      (hcase : Text.foldCase mnemonic = Text.foldCase mnemonic') :
      Respelled (label :: mnemonic :: operands) (label :: mnemonic' :: operands)

def SameUpToSpelling (line line' : String) : Prop :=
  Respelled (significantTokens line) (significantTokens line')

/-- Two lines that show the same tokens, each with its own separators and with a comment of its own
or none. -/
theorem sameUpToSpelling_of_writes {tokens : List String} {comment comment' line line' : String}
    (htokens : ∀ token ∈ tokens, Text.opensComment token = false)
    (hcomment : comment = "" ∨ Text.opensComment comment = true)
    (hcomment' : comment' = "" ∨ Text.opensComment comment' = true)
    (hline : Text.Writes comment tokens line) (hline' : Text.Writes comment' tokens line') :
    SameUpToSpelling line line' := by
  have hsignificant : ∀ comment line, comment = "" ∨ Text.opensComment comment = true →
      Text.Writes comment tokens line → significantTokens line = tokens := by
    intro comment line hcomment hwrites
    rw [significantTokens, Text.tokens_of_writes hwrites]
    exact beforeComment_append_comment htokens (isComment_tokens hcomment)
  rw [SameUpToSpelling, hsignificant comment line hcomment hline,
    hsignificant comment' line' hcomment' hline']
  exact .same tokens

/-- Two statements of one line in two spellings. -/
structure Alike (a b : Statement) : Prop where
  slot_eq : b.slot = a.slot
  label_eq : b.label = a.label
  body_alike : (a.isFiller = true ∧ b.isFiller = true) ∨
    ∃ mnemonic mnemonic' operands, a.body = .instruction mnemonic operands ∧
      b.body = .instruction mnemonic' operands ∧
      Text.foldCase mnemonic = Text.foldCase mnemonic'

theorem alike_bodyOf {mnemonic mnemonic' : String} {operands : List String}
    (hplain : beforeComment (mnemonic :: operands) = mnemonic :: operands)
    (hplain' : beforeComment (mnemonic' :: operands) = mnemonic' :: operands)
    (hcase : Text.foldCase mnemonic = Text.foldCase mnemonic') (slot : Nat)
    (text text' : String) (label : Option String) :
    Alike ⟨slot, text, label, bodyOf (mnemonic :: operands)⟩
      ⟨slot, text', label, bodyOf (mnemonic' :: operands)⟩ := by
  refine ⟨rfl, rfl, ?_⟩
  simp only [bodyOf, hplain, hplain', ← hcase]
  by_cases hnop : Text.foldCase mnemonic = "nop"
  · simp only [hnop, if_true]
    exact .inl ⟨rfl, rfl⟩
  · simp only [hnop, if_false]
    exact .inr ⟨_, _, _, rfl, rfl, hcase⟩

theorem alike_of_respelled {tokens tokens' : List String} (h : Respelled tokens tokens')
    (hplain : beforeComment tokens = tokens) (hplain' : beforeComment tokens' = tokens')
    (slot : Nat) (text text' : String) :
    Alike ⟨slot, text, (ofTokens tokens).1, (ofTokens tokens).2⟩
      ⟨slot, text', (ofTokens tokens').1, (ofTokens tokens').2⟩ := by
  have hfirst : ∀ first rest, beforeComment (first :: rest) = first :: rest →
      Text.opensComment first = false ∧ beforeComment rest = rest := by
    intro first rest hbefore
    by_cases hcomment : Text.opensComment first = true
    · simp [beforeComment, hcomment] at hbefore
    · simpa [beforeComment, hcomment] using hbefore
  cases h with
  | same =>
    refine ⟨rfl, rfl, ?_⟩
    cases hbody : (ofTokens tokens).2 with
    | instruction mnemonic operands => exact .inr ⟨_, _, _, rfl, rfl, rfl⟩
    | _ => exact .inl ⟨rfl, rfl⟩
  | @unlabelled mnemonic mnemonic' operands hlabel hcase =>
    have hlabel' := labelOf?_eq_none_of_foldCase hcase hlabel
    have hopens := (hfirst mnemonic operands hplain).1
    have hopens' := (hfirst mnemonic' operands hplain').1
    simp only [ofTokens, hopens, hopens', hlabel, hlabel', Bool.false_eq_true, if_false]
    exact alike_bodyOf hplain hplain' hcase slot text text' none
  | @labelled label mnemonic mnemonic' operands hlabel hcase =>
    obtain ⟨name, hname⟩ := Option.ne_none_iff_exists'.mp hlabel
    obtain ⟨hopens, hrest⟩ := hfirst label _ hplain
    obtain ⟨-, hrest'⟩ := hfirst label _ hplain'
    simp only [ofTokens, hopens, hname, Bool.false_eq_true, if_false]
    exact alike_bodyOf hrest hrest' hcase slot text text' (some name)

theorem Respelled.eq_nil_iff {tokens tokens' : List String} (h : Respelled tokens tokens') :
    tokens = [] ↔ tokens' = [] := by
  cases h with
  | same => exact Iff.rfl
  | unlabelled => simp
  | labelled => simp

theorem alike_parse {line line' : String} (h : SameUpToSpelling line line') (slot : Nat) :
    (parse slot line).Alike (parse slot line') := by
  have hnil := h.eq_nil_iff
  have hempty : ∀ tokens, ofTokens tokens = (none, .blank) ∨ ofTokens tokens = (none, .comment) →
      ∀ text, (Statement.mk slot text (ofTokens tokens).1 (ofTokens tokens).2).label = none ∧
        (Statement.mk slot text (ofTokens tokens).1 (ofTokens tokens).2).isFiller = true := by
    intro tokens hparts text
    rcases hparts with hparts | hparts <;> rw [hparts] <;> exact ⟨rfl, rfl⟩
  obtain ⟨hbefore, hparts⟩ | ⟨hbefore, hparts⟩ := ofTokens_cases (Text.tokens line)
  · obtain ⟨-, hparts'⟩ | ⟨hbefore', -⟩ := ofTokens_cases (Text.tokens line')
    · obtain ⟨hlabel, hfiller⟩ := hempty _ hparts line
      obtain ⟨hlabel', hfiller'⟩ := hempty _ hparts' line'
      exact ⟨rfl, hlabel'.trans hlabel.symm, .inl ⟨hfiller, hfiller'⟩⟩
    · exact absurd (hnil.mp hbefore) hbefore'
  · obtain ⟨hbefore', -⟩ | ⟨-, hparts'⟩ := ofTokens_cases (Text.tokens line')
    · exact absurd (hnil.mpr hbefore') hbefore
    · have halike := alike_of_respelled h (beforeComment_beforeComment _)
        (beforeComment_beforeComment _) slot line line'
      rw [significantTokens, significantTokens, ← hparts, ← hparts'] at halike
      exact halike

end Statement

end Mips
