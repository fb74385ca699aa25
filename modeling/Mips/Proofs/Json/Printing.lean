import Mips.Json.Document
import Mips.Proofs.Json.Reading

/-! # Printed documents

* `Json.value`: the value that a document stands for. Of a negative integer nothing is kept.
* `Json.isDocument_pretty`: the text of a document is in the grammar, as the text of its value. So it
  is read as this value, and as no other. -/

namespace Mips
set_option autoImplicit false

namespace Json

mutual

def value : Json → JsonValue
  | .null => .null
  | .integer n => .number (if 0 ≤ n then some n.toNat else none)
  | .string s => .string (some s)
  | .array items => .array (values items)
  | .object members => .object (memberValues members)

def values : List Json → List JsonValue
  | [] => []
  | item :: items => item.value :: values items

def memberValues : List (String × Json) → List (Option String × JsonValue)
  | [] => []
  | (key, item) :: members => (some key, item.value) :: memberValues members

end

/-! ## Numbers -/

theorem isDigitRow_toDigits (n : Nat) : JsonValue.IsDigitRow (Nat.toDigits 10 n) :=
  ⟨Nat.toDigits_ne_nil, fun _ hc => Nat.isDigit_of_mem_toDigits (by omega) (by omega) hc⟩

theorem isDigits_toDigits (n : Nat) : Text.IsDigits 10 (Nat.toDigits 10 n) n := by
  rw [Text.isDigits_ten_iff]
  exact ⟨(isDigitRow_toDigits n).1, (isDigitRow_toDigits n).2,
    Nat.ofDigitChars_toDigits (by omega) (by omega)⟩

/-- Only zero is written with a zero at the start. -/
theorem toDigits_of_head?_zero (n : Nat) (h : (Nat.toDigits 10 n).head? = some '0') :
    Nat.toDigits 10 n = ['0'] := by
  induction n using Nat.strongRecOn with
  | ind n ih =>
    by_cases hn : n < 10
    · rw [Nat.toDigits_of_lt_base hn] at h ⊢
      exact congrArg (· :: []) (Option.some.inj h)
    · obtain ⟨c, tail, hdigits⟩ :=
        List.exists_cons_of_ne_nil (Nat.toDigits_ne_nil : Nat.toDigits 10 (n / 10) ≠ [])
      rw [Nat.toDigits_of_base_le (by omega) (by omega), hdigits, List.cons_append,
        List.head?_cons] at h
      have hzero := ih (n / 10) (by omega) (by rw [hdigits, List.head?_cons, h])
      have hvalue := isDigits_toDigits (n / 10)
      rw [hzero, Text.isDigits_ten_iff] at hvalue
      have hdiv : n / 10 = 0 := hvalue.2.2.symm
      omega

theorem isWhole_toDigits (n : Nat) : JsonValue.IsWhole (Nat.toDigits 10 n) :=
  ⟨isDigitRow_toDigits n, toDigits_of_head?_zero n⟩

theorem isNumber_toString (n : Int) :
    JsonValue.IsNumber (toString n).toList (if 0 ≤ n then some n.toNat else none) := by
  rw [Int.toString_eq_repr, Int.repr_eq_if]
  by_cases hn : 0 ≤ n
  · rw [if_pos hn, if_pos hn, Nat.toList_repr]
    exact .natural (isWhole_toDigits _) (isDigits_toDigits _)
  · rw [if_neg hn, if_neg hn, String.toList_append, Nat.toList_repr]
    have hnumber := JsonValue.IsNumber.negative (isWhole_toDigits (-n).toNat) (.inl rfl) (.inl rfl)
    rw [List.append_nil, List.append_nil] at hnumber
    exact hnumber

/-! ## Strings -/

theorem isDigits_hexChars (n : Nat) (hn : n < 0x10000) :
    Text.IsDigits 16 (Text.hexChars 4 n) n := by
  have hdigit : ∀ value < 16, Text.IsDigit 16 (Nat.digitChar value) value := by
    intro value hvalue
    refine ⟨hvalue, ?_⟩
    revert value
    decide
  have hchar (m : Nat) : Text.IsDigit 16 (Nat.digitChar (m % 16)) (m % 16) :=
    hdigit (m % 16) (Nat.mod_lt m (by omega))
  exact (JsonValue.isDigits_four_iff _ _ _ _ n).mpr
    ⟨_, hchar (n / 16 / 16 / 16), _, hchar (n / 16 / 16), _, hchar (n / 16), _, hchar n, by omega⟩

/-- An escaped character is read as this character. -/
theorem exists_spells_escapeChar (c : Char) :
    ∃ piece, JsonValue.Spells (escapeChar c) piece ∧
      ∀ pieces cs, JsonValue.Decodes pieces cs → JsonValue.Decodes (piece :: pieces) (c :: cs) := by
  unfold escapeChar
  split
  iterate 7 exact ⟨_, .escape (by decide), fun _ _ => .char⟩
  next hquote hslash _ _ _ _ _ =>
    by_cases hcontrol : c.toNat < 0x20
    · rw [if_pos hcontrol]
      exact ⟨_, .unit (isDigits_hexChars c.toNat (by omega)), fun _ _ => .unit⟩
    · rw [if_neg hcontrol]
      exact ⟨_, .char hquote hslash (by omega), fun _ _ => .char⟩

theorem exists_spellsAll (cs : List Char) :
    ∃ pieces, JsonValue.SpellsAll (cs.flatMap escapeChar) pieces ∧
      JsonValue.Decodes pieces cs := by
  induction cs with
  | nil => exact ⟨[], .nil, .nil⟩
  | cons c cs ih =>
    obtain ⟨pieces, hspells, hdecodes⟩ := ih
    obtain ⟨piece, hpiece, hchar⟩ := exists_spells_escapeChar c
    exact ⟨piece :: pieces, .cons hpiece hspells, hchar pieces cs hdecodes⟩

theorem isString_escape (s : String) :
    JsonValue.IsString (s.toList.flatMap escapeChar) (some s) := by
  obtain ⟨pieces, hspells, hdecodes⟩ := exists_spellsAll s.toList
  refine ⟨pieces, hspells, ?_⟩
  intro other
  rw [← JsonValue.map_decodePieces_eq_some_iff hspells,
    JsonValue.decodePieces_of_decodes hdecodes, Option.map_some, String.ofList_toList]

theorem toList_quote (s : String) :
    (quote s).toList = '"' :: (s.toList.flatMap escapeChar ++ ['"']) := by
  simp [quote, String.toList_append]

/-! ## Layout -/

theorem spaces_indent (depth : Nat) (rest : List Char) :
    JsonValue.Spaces ((indent depth).toList ++ rest) rest := by
  refine ⟨(indent depth).toList, rfl, ?_⟩
  intro c hc
  rw [indent, String.toList_ofList] at hc
  exact .inl (List.eq_of_mem_replicate hc)

theorem spaces_newline {cs rest : List Char} (h : JsonValue.Spaces cs rest) :
    JsonValue.Spaces ('\n' :: cs) rest :=
  .trans ⟨['\n'], rfl, by simp⟩ h

/-- Lines with an indent, and a comma between each two of them. -/
def block (depth : Nat) (lines : List String) : List Char :=
  (",\n".intercalate (lines.map (indent depth ++ ·))).toList

theorem block_singleton (depth : Nat) (line : String) :
    block depth [line] = (indent depth).toList ++ line.toList := by
  rw [block, List.map_singleton, String.intercalate_singleton, String.toList_append]

theorem block_cons_cons (depth : Nat) (line next : String) (lines : List String) :
    block depth (line :: next :: lines) =
      (indent depth).toList ++ (line.toList ++ ',' :: '\n' :: block depth (next :: lines)) := by
  simp [block, String.intercalate_cons_cons, String.toList_append]

theorem toList_bracket_nil (opening closing : String) (depth : Nat) :
    (bracket opening closing depth []).toList = opening.toList ++ closing.toList :=
  String.toList_append

theorem toList_bracket (opening closing : String) (depth : Nat) {lines : List String}
    (h : lines ≠ []) :
    (bracket opening closing depth lines).toList =
      opening.toList ++ '\n' ::
        (block (depth + 1) lines ++ '\n' :: ((indent depth).toList ++ closing.toList)) := by
  rw [bracket, if_neg (by simpa using h)]
  simp [block, String.toList_append]

theorem writesMember_prettyAt {depth : Nat} {key : String} {item : Json} {rest : List Char}
    (h : JsonValue.Writes ((prettyAt depth item).toList ++ rest) item.value rest) :
    JsonValue.WritesMember
      ((indent depth).toList ++ ((quote key ++ ": " ++ prettyAt depth item).toList ++ rest))
      (some key, item.value) rest := by
  have hmember := JsonValue.WritesMember.mk (spaces_indent depth _) (isString_escape key)
    (.refl _) ⟨[' '], rfl, by simp⟩ h
  simp only [String.toList_append, toList_quote, List.cons_append, List.append_assoc] at hmember ⊢
  exact hmember

mutual

theorem writes_prettyAt (depth : Nat) (rest : List Char) : (document : Json) →
    JsonValue.Writes ((prettyAt depth document).toList ++ rest) document.value rest
  | .null => by
    rw [prettyAt]
    exact .null
  | .integer n => by
    rw [prettyAt]
    exact .number (isNumber_toString n)
  | .string s => by
    rw [prettyAt, toList_quote, List.cons_append, List.append_assoc]
    exact .string (isString_escape s)
  | .array [] => by
    rw [prettyAt, prettyItems, toList_bracket_nil]
    exact .emptyArray (.refl _)
  | .array (item :: items) => by
    rw [prettyAt, toList_bracket _ _ _ (by simp [prettyItems])]
    simp only [List.append_assoc, List.cons_append]
    refine .array ((writesItems_block (depth + 1) ?_ (item :: items) (by simp)).of_spaces
      (spaces_newline (.refl _)))
    exact spaces_newline (spaces_indent depth _)
  | .object [] => by
    rw [prettyAt, prettyMembers, toList_bracket_nil]
    exact .emptyObject (.refl _)
  | .object (member :: members) => by
    rw [prettyAt, toList_bracket _ _ _ (by simp [prettyMembers])]
    simp only [List.append_assoc, List.cons_append]
    refine .object ((writesMembers_block (depth + 1) ?_ (member :: members) (by simp)).of_spaces
      (spaces_newline (.refl _)))
    exact spaces_newline (spaces_indent depth _)

theorem writesItems_block (depth : Nat) {after rest : List Char}
    (h : JsonValue.Spaces after rest) : (items : List Json) → items ≠ [] →
      JsonValue.WritesItems (block depth (prettyItems depth items) ++ after) (values items) rest
  | [], hne => absurd rfl hne
  | [item], _ => by
    rw [prettyItems, prettyItems, block_singleton, List.append_assoc]
    exact .last (spaces_indent depth _) (writes_prettyAt depth after item) h
  | item :: next :: items, _ => by
    have hitems := writesItems_block depth h (next :: items) (by simp)
    rw [prettyItems] at hitems ⊢
    rw [prettyItems, block_cons_cons, List.append_assoc, List.append_assoc]
    exact .cons (spaces_indent depth _) (writes_prettyAt depth _ item) (.refl _)
      (hitems.of_spaces (spaces_newline (.refl _)))

theorem writesMembers_block (depth : Nat) {after rest : List Char}
    (h : JsonValue.Spaces after rest) : (members : List (String × Json)) → members ≠ [] →
      JsonValue.WritesMembers (block depth (prettyMembers depth members) ++ after)
        (memberValues members) rest
  | [], hne => absurd rfl hne
  | [(key, item)], _ => by
    rw [prettyMembers, prettyMembers, block_singleton, List.append_assoc]
    exact .last (writesMember_prettyAt (writes_prettyAt depth after item)) h
  | (key, item) :: next :: members, _ => by
    have hmembers := writesMembers_block depth h (next :: members) (by simp)
    rw [prettyMembers] at hmembers ⊢
    rw [prettyMembers, block_cons_cons, List.append_assoc, List.append_assoc]
    exact .cons (writesMember_prettyAt (writes_prettyAt depth _ item)) (.refl _)
      (hmembers.of_spaces (spaces_newline (.refl _)))

end

/-- A document that ends its last line is read as its value. -/
theorem isDocument_pretty (document : Json) :
    document.value.IsDocument (document.pretty ++ "\n") := by
  refine ⟨(document.pretty ++ "\n").toList, ['\n'], .refl _, ?_, ⟨['\n'], rfl, by simp⟩⟩
  rw [String.toList_append]
  exact writes_prettyAt 0 ['\n'] document

end Json

end Mips
