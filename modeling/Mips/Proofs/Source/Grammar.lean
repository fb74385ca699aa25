import Mips.Proofs.Source.Spelling

/-! # The grammar of lines

Which lines are blank, a comment, a label alone, a `nop` or an instruction, by the tokens they show.

* `Statement.Derives tokens label body`: the grammar, one rule for each kind of line.
* `Statement.ofTokens_of_derives`, `Statement.derives_ofTokens`: a line is read as what the grammar
  derives for its tokens, and the grammar derives what the line is read as.
* `Statement.parse_follows_grammar`: the same for the texts that show the tokens. -/

namespace Mips
set_option autoImplicit false

namespace Statement

/-! ## Labels -/

theorem labelOf?_append_colon (name : String) : labelOf? (name ++ ":") = some name := by
  simp [labelOf?, String.toList_append]

theorem labelOf?_eq_some_iff (token name : String) :
    labelOf? token = some name ↔ token = name ++ ":" := by
  constructor
  · intro h
    unfold labelOf? at h
    split at h
    · next reversed htoken =>
      rw [← Option.some.inj h, ← String.toList_inj, String.toList_append, String.toList_ofList]
      have hchars := congrArg List.reverse htoken
      rw [List.reverse_reverse, List.reverse_cons] at hchars
      exact hchars
    · cases h
  · intro h
    rw [h, labelOf?_append_colon]

/-- A name that a line can declare. It may be empty, since only the symbol table refuses that. -/
structure IsLabel (name : String) : Prop where
  not_separator : ∀ c ∈ name.toList, Text.isTokenSeparator c = false
  not_comment : Text.opensComment (name ++ ":") = false

instance (name : String) : Decidable (IsLabel name) :=
  decidable_of_iff (name.toList.any Text.isTokenSeparator = false ∧
      Text.opensComment (name ++ ":") = false)
    ⟨fun h => ⟨(Text.any_eq_false_iff_forall _ _).mp h.1, h.2⟩,
      fun h => ⟨(Text.any_eq_false_iff_forall _ _).mpr h.not_separator, h.not_comment⟩⟩

/-- The token that declares a label, if there is a label. -/
def labelTokens : Option String → List String
  | none => []
  | some name => [name ++ ":"]

/-! ## The rules -/

/-- A token that is read as a mnemonic after a label, or at the start of a line without one. -/
structure IsMnemonic (label : Option String) (mnemonic : String) : Prop
    extends Text.IsPlainToken mnemonic where
  not_nop : Text.foldCase mnemonic ≠ "nop"
  not_label : label = none → mnemonic.toList.getLast? ≠ some ':'

instance (label : Option String) (mnemonic : String) : Decidable (IsMnemonic label mnemonic) :=
  decidable_of_iff (Text.IsPlainToken mnemonic ∧ Text.foldCase mnemonic ≠ "nop" ∧
      (label = none → mnemonic.toList.getLast? ≠ some ':'))
    ⟨fun h => ⟨h.1, h.2.1, h.2.2⟩, fun h => ⟨h.toIsPlainToken, h.not_nop, h.not_label⟩⟩

/-- The lines of each kind, by their tokens. -/
inductive Derives : List String → Option String → Body → Prop
  | blank : Derives [] none .blank
  | comment {first : String} (rest : List String) (hfirst : Text.opensComment first = true) :
      Derives (first :: rest) none .comment
  | labelOnly {name : String} {comment : List String} (hname : IsLabel name)
      (hcomment : IsComment comment) :
      Derives (labelTokens (some name) ++ comment) (some name) .labelOnly
  /-- All that follows a `nop` is left unread. -/
  | nop {label : Option String} {mnemonic : String} (rest : List String)
      (hlabel : ∀ name, label = some name → IsLabel name)
      (hmnemonic : Text.foldCase mnemonic = "nop") :
      Derives (labelTokens label ++ mnemonic :: rest) label .nop
  | instruction {label : Option String} {mnemonic : String} {operands comment : List String}
      (hlabel : ∀ name, label = some name → IsLabel name)
      (hmnemonic : IsMnemonic label mnemonic)
      (hoperands : ∀ operand ∈ operands, Text.IsPlainToken operand)
      (hcomment : IsComment comment) :
      Derives (labelTokens label ++ mnemonic :: operands ++ comment) label
        (.instruction mnemonic operands)

/-! ## Bodies -/

theorem bodyOf_comment {comment : List String} (h : IsComment comment) :
    bodyOf comment = .labelOnly := by
  have hnone : beforeComment comment = [] :=
    beforeComment_append_comment (fun _ hmem => (List.not_mem_nil hmem).elim) h
  rw [bodyOf, hnone]

theorem bodyOf_instruction {mnemonic : String} {operands comment : List String}
    (hmnemonic : Text.opensComment mnemonic = false) (hnop : Text.foldCase mnemonic ≠ "nop")
    (hoperands : ∀ operand ∈ operands, Text.opensComment operand = false)
    (hcomment : IsComment comment) :
    bodyOf (mnemonic :: operands ++ comment) = .instruction mnemonic operands := by
  have hplain : beforeComment (mnemonic :: operands ++ comment) = mnemonic :: operands := by
    apply beforeComment_append_comment _ hcomment
    intro token htoken
    rcases List.mem_cons.mp htoken with rfl | hmem
    · exact hmnemonic
    · exact hoperands token hmem
  rw [bodyOf, hplain]
  exact if_neg hnop

/-- The first and the last letter of a `nop` are letters in either case. -/
theorem plain_of_foldCase_eq_nop {mnemonic : String} (h : Text.foldCase mnemonic = "nop") :
    Text.opensComment mnemonic = false ∧ labelOf? mnemonic = none := by
  have hchars : mnemonic.toList.map Char.toLower = ['n', 'o', 'p'] := by
    simpa [Text.foldCase] using congrArg String.toList h
  have hhead : mnemonic.toList.head?.map Char.toLower = some 'n' := by
    rw [← List.head?_map, hchars]
    rfl
  have hlast : mnemonic.toList.getLast?.map Char.toLower = some 'p' := by
    rw [← List.getLast?_map, hchars]
    rfl
  refine ⟨?_, ?_⟩
  · rw [Text.opensComment, beq_eq_false_iff_ne]
    intro hcomment
    rw [hcomment] at hhead
    exact absurd hhead (by decide)
  · rw [labelOf?_eq_none_iff]
    intro hcolon
    rw [hcolon] at hlast
    exact absurd hlast (by decide)

theorem bodyOf_nop {mnemonic : String} (rest : List String)
    (h : Text.foldCase mnemonic = "nop") : bodyOf (mnemonic :: rest) = .nop := by
  have hbefore : beforeComment (mnemonic :: rest) = mnemonic :: beforeComment rest := by
    simp [beforeComment, (plain_of_foldCase_eq_nop h).1]
  rw [bodyOf, hbefore]
  exact if_pos h

/-- A line without a label starts with a token that is neither a comment nor a label. -/
def StartsPlain (label : Option String) (tokens : List String) : Prop :=
  label = none → ∃ first rest, tokens = first :: rest ∧ Text.opensComment first = false ∧
    labelOf? first = none

theorem startsPlain_some (name : String) (tokens : List String) :
    StartsPlain (some name) tokens := by
  intro h
  cases h

theorem ofTokens_labelTokens {label : Option String} {tokens : List String}
    (hlabel : ∀ name, label = some name → IsLabel name) (htokens : StartsPlain label tokens) :
    ofTokens (labelTokens label ++ tokens) = (label, bodyOf tokens) := by
  cases label with
  | none =>
    obtain ⟨first, rest, rfl, hcomment, hnone⟩ := htokens rfl
    simp [labelTokens, ofTokens, hcomment, hnone]
  | some name =>
    simp [labelTokens, ofTokens, (hlabel name rfl).not_comment, labelOf?_append_colon]

theorem ofTokens_of_derives {tokens : List String} {label : Option String} {body : Body}
    (h : Derives tokens label body) : ofTokens tokens = (label, body) := by
  cases h with
  | blank => rfl
  | comment rest hfirst => simp [ofTokens, hfirst]
  | @labelOnly name comment hname hcomment =>
    have hlabel : ∀ other, some name = some other → IsLabel other := by
      rintro _ ⟨⟩
      exact hname
    rw [ofTokens_labelTokens hlabel (startsPlain_some name comment), bodyOf_comment hcomment]
  | @nop _ mnemonic rest hlabel hmnemonic =>
    obtain ⟨hcomment, hnone⟩ := plain_of_foldCase_eq_nop hmnemonic
    rw [ofTokens_labelTokens hlabel fun _ => ⟨mnemonic, rest, rfl, hcomment, hnone⟩,
      bodyOf_nop rest hmnemonic]
  | @instruction _ mnemonic operands comment hlabel hmnemonic hoperands hcomment =>
    have hstart : StartsPlain label (mnemonic :: operands ++ comment) := by
      intro hnone
      exact ⟨mnemonic, operands ++ comment, rfl, hmnemonic.not_comment,
        (labelOf?_eq_none_iff mnemonic).mpr (hmnemonic.not_label hnone)⟩
    rw [List.append_assoc, ofTokens_labelTokens hlabel hstart,
      bodyOf_instruction hmnemonic.not_comment hmnemonic.not_nop
        (fun operand hoperand => (hoperands operand hoperand).not_comment) hcomment]

/-! ## Derivations -/

theorem isComment_dropWhile (tokens : List String) :
    IsComment (tokens.dropWhile fun token => !Text.opensComment token) := by
  intro first hfirst
  have hstop := List.head?_dropWhile_not (fun token => !Text.opensComment token) tokens
  rw [hfirst] at hstop
  simpa using hstop

theorem derives_bodyOf {label : Option String} {tokens : List String}
    (hlabel : ∀ name, label = some name → IsLabel name) (hstart : StartsPlain label tokens)
    (htokens : ∀ token ∈ tokens, Text.IsToken token) :
    Derives (labelTokens label ++ tokens) label (bodyOf tokens) := by
  have hcut : beforeComment tokens ++ tokens.dropWhile (fun token => !Text.opensComment token) =
      tokens := List.takeWhile_append_dropWhile
  have hcomment := isComment_dropWhile tokens
  generalize tokens.dropWhile (fun token => !Text.opensComment token) = comment at hcut hcomment
  have hplain : ∀ token ∈ beforeComment tokens, Text.IsPlainToken token := by
    intro token htoken
    refine ⟨htokens token ((List.takeWhile_sublist _).subset htoken), ?_⟩
    simpa using List.mem_takeWhile_imp htoken
  cases hbefore : beforeComment tokens with
  | nil =>
    rw [hbefore, List.nil_append] at hcut
    cases label with
    | none =>
      obtain ⟨first, rest, rfl, hfirst, -⟩ := hstart rfl
      rw [hcomment first (by rw [hcut]; rfl)] at hfirst
      cases hfirst
    | some name =>
      rw [← hcut, bodyOf_comment hcomment]
      exact .labelOnly (hlabel name rfl) hcomment
  | cons mnemonic operands =>
    rw [hbefore] at hplain hcut
    obtain ⟨hmnemonic, hoperands⟩ := List.forall_mem_cons.mp hplain
    by_cases hnop : Text.foldCase mnemonic = "nop"
    · rw [← hcut, List.cons_append, bodyOf_nop _ hnop]
      exact .nop _ hlabel hnop
    · rw [← hcut, bodyOf_instruction hmnemonic.not_comment hnop
        (fun operand hoperand => (hoperands operand hoperand).not_comment) hcomment,
        ← List.append_assoc]
      refine .instruction hlabel ⟨hmnemonic, hnop, ?_⟩ hoperands hcomment
      intro hnone
      obtain ⟨first, rest, hfirst, -, hnolabel⟩ := hstart hnone
      rw [hfirst, List.cons_append] at hcut
      rw [List.head_eq_of_cons_eq hcut]
      exact (labelOf?_eq_none_iff first).mp hnolabel

theorem derives_ofTokens {tokens : List String} (htokens : ∀ token ∈ tokens, Text.IsToken token) :
    Derives tokens (ofTokens tokens).1 (ofTokens tokens).2 := by
  cases tokens with
  | nil => exact .blank
  | cons first rest =>
    obtain ⟨hfirst, hrest⟩ := List.forall_mem_cons.mp htokens
    by_cases hcomment : Text.opensComment first = true
    · simp only [ofTokens, hcomment, if_true]
      exact .comment rest hcomment
    · rw [Bool.not_eq_true] at hcomment
      simp only [ofTokens, hcomment, Bool.false_eq_true, if_false]
      cases hlabel : labelOf? first with
      | none =>
        have hstart : StartsPlain none (first :: rest) :=
          fun _ => ⟨first, rest, rfl, hcomment, hlabel⟩
        have hnone : ∀ name, none = some name → IsLabel name := by
          intro name hname
          cases hname
        exact derives_bodyOf hnone hstart htokens
      | some name =>
        rw [labelOf?_eq_some_iff] at hlabel
        rw [hlabel] at hfirst hcomment ⊢
        have hname : IsLabel name := by
          refine ⟨?_, hcomment⟩
          intro c hc
          apply hfirst.not_separator
          rw [String.toList_append, List.mem_append]
          exact .inl hc
        have hsome : ∀ other, some name = some other → IsLabel other := by
          rintro _ ⟨⟩
          exact hname
        exact derives_bodyOf hsome (startsPlain_some name rest) hrest

/-! ## Lines -/

theorem parse_eq_iff_derives (slot : Nat) (text : String) (label : Option String) (body : Body) :
    ((parse slot text).label = label ∧ (parse slot text).body = body) ↔
      Derives (Text.tokens text) label body := by
  constructor
  · rintro ⟨rfl, rfl⟩
    exact derives_ofTokens fun _ => Text.isToken_of_mem_tokens
  · intro h
    have hparts := ofTokens_of_derives h
    exact ⟨congrArg Prod.fst hparts, congrArg Prod.snd hparts⟩

/-- The tokens of a text are those that it shows between separators. A line that shows a label, a
mnemonic and operands, with a comment after them or none, is read as that instruction, and every
line is read as what the grammar derives for its tokens. -/
theorem parse_follows_grammar :
    (∀ (tokens : List String) (text : String),
      Text.Writes "" tokens text ↔ Text.tokens text = tokens) ∧
    (∀ (slot : Nat) (label : Option String) (mnemonic : String) (operands : List String)
        (comment text : String),
      (∀ name, label = some name → IsLabel name) → IsMnemonic label mnemonic →
      (∀ operand ∈ operands, Text.IsPlainToken operand) →
      (comment = "" ∨ Text.opensComment comment = true) →
      Text.Writes comment (labelTokens label ++ mnemonic :: operands) text →
      (parse slot text).label = label ∧
        (parse slot text).body = .instruction mnemonic operands) ∧
    ∀ (slot : Nat) (text : String) (label : Option String) (body : Body),
      ((parse slot text).label = label ∧ (parse slot text).body = body) ↔
        Derives (Text.tokens text) label body := by
  refine ⟨Text.writes_iff_tokens_eq, ?_, parse_eq_iff_derives⟩
  intro slot label mnemonic operands comment text hlabel hmnemonic hoperands hcomment hwrites
  rw [parse_eq_iff_derives, Text.tokens_of_writes hwrites]
  exact .instruction hlabel hmnemonic hoperands (isComment_tokens hcomment)

/-- After a label, a token with a colon at its end is the mnemonic, and `nop` an operand. -/
theorem parse_follows_grammar_second_colon :
    Text.Writes "#x: y" ["a:", "b:", "nop"] " a:,\tb: nop #x: y" ∧
      (parse 7 " a:,\tb: nop #x: y").label = some "a" ∧
      (parse 7 " a:,\tb: nop #x: y").body = .instruction "b:" ["nop"] := by
  have hwrites : Text.Writes "#x: y" ["a:", "b:", "nop"]
      (" " ++ "a:" ++ (",\t" ++ "b:" ++ (" " ++ "nop" ++ (" " ++ "#x: y")))) :=
    .token (by decide) (by decide) (by decide) (.token (by decide) (by decide) (by decide)
      (.token (by decide) (by decide) (by decide) (.tail (by decide))))
  have hlabel : ∀ name, some "a" = some name → IsLabel name := by
    rintro _ ⟨⟩
    decide
  exact ⟨hwrites, parse_follows_grammar.2.1 7 (some "a") "b:" ["nop"] "#x: y" _ hlabel (by decide)
    (by decide) (by decide) hwrites⟩

end Statement

end Mips
