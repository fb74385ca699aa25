import Mips.Json.Reader
import Mips.Proofs.Text.NumeralGrammar

/-! # The grammar of JSON

The texts of JSON values, as rules on lists of characters.

* `IsNumber text value`, `IsString text value`: the texts of numbers, and of strings between their
  quotes.
* `Writes cs value rest`: a text that starts with a value, which `rest` follows.
* `IsDocument s value`: a value with white space around it.
* `readNumber_eq_some`, `readText_eq_some` and their converses: what the readers of numbers and
  strings take is what these rules describe. -/

namespace Mips.JsonValue
set_option autoImplicit false

/-! ## The rules -/

/-- White space, up to a rest. -/
def Spaces (cs rest : List Char) : Prop :=
  ∃ spaces, cs = spaces ++ rest ∧ ∀ c ∈ spaces, c = ' ' ∨ c = '\t' ∨ c = '\n' ∨ c = '\r'

def IsDigitRow (ds : List Char) : Prop :=
  ds ≠ [] ∧ ∀ c ∈ ds, c.isDigit = true

/-- Digits that do not start with a zero, or a zero alone. -/
def IsWhole (ds : List Char) : Prop :=
  IsDigitRow ds ∧ (ds.head? = some '0' → ds = ['0'])

def IsFraction (cs : List Char) : Prop :=
  cs = [] ∨ ∃ ds, cs = '.' :: ds ∧ IsDigitRow ds

def IsExponent (cs : List Char) : Prop :=
  cs = [] ∨ ∃ mark sign ds, cs = mark :: (sign ++ ds) ∧ (mark = 'e' ∨ mark = 'E') ∧
    (sign = [] ∨ sign = ['+'] ∨ sign = ['-']) ∧ IsDigitRow ds

/-- The texts of numbers. Only the value of a plain row of digits is known. -/
inductive IsNumber : List Char → Option Nat → Prop
  | natural {ds : List Char} {n : Nat} :
      IsWhole ds → Text.IsDigits 10 ds n → IsNumber ds (some n)
  | decimal {ds fraction exponent : List Char} :
      IsWhole ds → IsFraction fraction → IsExponent exponent → fraction ++ exponent ≠ [] →
        IsNumber (ds ++ (fraction ++ exponent)) none
  | negative {ds fraction exponent : List Char} :
      IsWhole ds → IsFraction fraction → IsExponent exponent →
        IsNumber ('-' :: (ds ++ (fraction ++ exponent))) none

/-- The letters after a backslash, and the characters that they stand for. -/
def escapes : List (Char × Char) :=
  [('"', '"'), ('\\', '\\'), ('/', '/'), ('b', '\x08'), ('f', '\x0c'), ('n', '\n'), ('r', '\r'),
    ('t', '\t')]

inductive Spells : List Char → Piece → Prop
  | char {c : Char} : c ≠ '"' → c ≠ '\\' → 0x20 ≤ c.toNat → Spells [c] (.char c)
  | escape {letter c : Char} : (letter, c) ∈ escapes → Spells ['\\', letter] (.char c)
  | unit {a b c d : Char} {code : Nat} :
      Text.IsDigits 16 [a, b, c, d] code → Spells ['\\', 'u', a, b, c, d] (.unit code)

inductive SpellsAll : List Char → List Piece → Prop
  | nil : SpellsAll [] []
  | cons {text texts : List Char} {piece : Piece} {pieces : List Piece} :
      Spells text piece → SpellsAll texts pieces → SpellsAll (text ++ texts) (piece :: pieces)

/-- The characters that pieces stand for. A code unit is a character, or half of a pair. -/
inductive Decodes : List Piece → List Char → Prop
  | nil : Decodes [] []
  | char {c : Char} {pieces : List Piece} {cs : List Char} :
      Decodes pieces cs → Decodes (.char c :: pieces) (c :: cs)
  | unit {c : Char} {pieces : List Piece} {cs : List Char} :
      Decodes pieces cs → Decodes (.unit c.toNat :: pieces) (c :: cs)
  | pair {high low : Nat} {c : Char} {pieces : List Piece} {cs : List Char} :
      0xD800 ≤ high → high < 0xDC00 → 0xDC00 ≤ low → low < 0xE000 →
        c.toNat = 0x10000 + (high - 0xD800) * 0x400 + (low - 0xDC00) →
          Decodes pieces cs → Decodes (.unit high :: .unit low :: pieces) (c :: cs)

/-- The texts between the quotes of a string, and the text that it stands for if there is one. -/
def IsString (inner : List Char) (value : Option String) : Prop :=
  ∃ pieces, SpellsAll inner pieces ∧ ∀ s, value = some s ↔ Decodes pieces s.toList

mutual

inductive Writes : List Char → JsonValue → List Char → Prop
  | null {rest : List Char} : Writes ('n' :: 'u' :: 'l' :: 'l' :: rest) .null rest
  | boolTrue {rest : List Char} : Writes ('t' :: 'r' :: 'u' :: 'e' :: rest) (.bool true) rest
  | boolFalse {rest : List Char} :
      Writes ('f' :: 'a' :: 'l' :: 's' :: 'e' :: rest) (.bool false) rest
  | number {text rest : List Char} {value : Option Nat} :
      IsNumber text value → Writes (text ++ rest) (.number value) rest
  | string {inner rest : List Char} {value : Option String} :
      IsString inner value → Writes ('"' :: (inner ++ '"' :: rest)) (.string value) rest
  | emptyArray {cs rest : List Char} :
      Spaces cs (']' :: rest) → Writes ('[' :: cs) (.array []) rest
  | array {cs rest : List Char} {items : List JsonValue} :
      WritesItems cs items (']' :: rest) → Writes ('[' :: cs) (.array items) rest
  | emptyObject {cs rest : List Char} :
      Spaces cs ('\x7d' :: rest) → Writes ('\x7b' :: cs) (.object []) rest
  | object {cs rest : List Char} {members : List (Option String × JsonValue)} :
      WritesMembers cs members ('\x7d' :: rest) → Writes ('\x7b' :: cs) (.object members) rest

/-- One item or more, with commas between them and white space around them. -/
inductive WritesItems : List Char → List JsonValue → List Char → Prop
  | last {cs text after rest : List Char} {item : JsonValue} :
      Spaces cs text → Writes text item after → Spaces after rest → WritesItems cs [item] rest
  | cons {cs text after next rest : List Char} {item : JsonValue} {items : List JsonValue} :
      Spaces cs text → Writes text item after → Spaces after (',' :: next) →
        WritesItems next items rest → WritesItems cs (item :: items) rest

/-- A string, a colon and a value, with white space before each of them. -/
inductive WritesMember : List Char → Option String × JsonValue → List Char → Prop
  | mk {cs key colon afterColon text rest : List Char} {name : Option String} {item : JsonValue} :
      Spaces cs ('"' :: (key ++ '"' :: colon)) → IsString key name →
        Spaces colon (':' :: afterColon) → Spaces afterColon text → Writes text item rest →
          WritesMember cs (name, item) rest

/-- One member or more, with commas between them. -/
inductive WritesMembers : List Char → List (Option String × JsonValue) → List Char → Prop
  | last {cs after rest : List Char} {member : Option String × JsonValue} :
      WritesMember cs member after → Spaces after rest → WritesMembers cs [member] rest
  | cons {cs after next rest : List Char} {member : Option String × JsonValue}
      {members : List (Option String × JsonValue)} :
      WritesMember cs member after → Spaces after (',' :: next) →
        WritesMembers next members rest → WritesMembers cs (member :: members) rest

end

/-- A text that holds one value, with white space around it. -/
def IsDocument (s : String) (value : JsonValue) : Prop :=
  ∃ text after, Spaces s.toList text ∧ Writes text value after ∧ Spaces after []

/-! ## Numbers -/

/-- The rest starts with no character of a kind. -/
def NotAhead (kind : Char → Bool) (rest : List Char) : Prop :=
  ∀ c ∈ rest.head?, kind c = false

/-- A character that would go on with a number. -/
def isNumberPart (c : Char) : Bool :=
  c.isDigit || c == '.' || c == 'e' || c == 'E'

theorem dropWhile_of_notAhead {kind : Char → Bool} {rest : List Char} (h : NotAhead kind rest) :
    rest.dropWhile kind = rest := by
  cases rest with
  | nil => rfl
  | cons c rest => rw [List.dropWhile_cons_of_neg (by simp [h c rfl])]

theorem takeWhile_of_notAhead {kind : Char → Bool} {rest : List Char} (h : NotAhead kind rest) :
    rest.takeWhile kind = [] := by
  cases rest with
  | nil => rfl
  | cons c rest => rw [List.takeWhile_cons_of_neg (by simp [h c rfl])]

theorem readDigits_eq_some {cs ds rest : List Char} (h : readDigits cs = some (ds, rest)) :
    cs = ds ++ rest ∧ IsDigitRow ds := by
  simp only [readDigits] at h
  split at h
  · cases h
  · next hne =>
    cases h
    refine ⟨List.takeWhile_append_dropWhile.symm, by simpa using hne, ?_⟩
    intro c hc
    exact List.all_eq_true.mp List.all_takeWhile c hc

theorem readDigits_append {ds rest : List Char} (h : IsDigitRow ds)
    (hrest : NotAhead Char.isDigit rest) : readDigits (ds ++ rest) = some (ds, rest) := by
  have htake : (ds ++ rest).takeWhile Char.isDigit = ds := by
    rw [List.takeWhile_append_of_pos h.2, takeWhile_of_notAhead hrest, List.append_nil]
  have hdrop : (ds ++ rest).dropWhile Char.isDigit = rest := by
    rw [List.dropWhile_append_of_pos h.2, dropWhile_of_notAhead hrest]
  simp only [readDigits, htake, hdrop]
  rw [if_neg (by simpa using h.1)]

theorem readWhole_eq_some {cs ds rest : List Char} (h : readWhole cs = some (ds, rest)) :
    cs = ds ++ rest ∧ IsWhole ds := by
  unfold readWhole at h
  split at h
  · cases h
    exact ⟨rfl, ⟨by simp, by simp⟩, fun _ => rfl⟩
  · next hzero =>
    obtain ⟨rfl, hds⟩ := readDigits_eq_some h
    refine ⟨rfl, hds, ?_⟩
    intro hhead
    obtain ⟨tail, rfl⟩ := List.head?_eq_some_iff.mp hhead
    exact absurd rfl (hzero (tail ++ rest))

theorem readWhole_append {ds rest : List Char} (h : IsWhole ds)
    (hrest : NotAhead Char.isDigit rest) : readWhole (ds ++ rest) = some (ds, rest) := by
  obtain ⟨hds, hzero⟩ := h
  unfold readWhole
  split
  · next cs heq =>
    have hhead : ds.head? = some '0' := by
      cases ds with
      | nil => exact absurd rfl hds.1
      | cons c ds => rw [List.cons_append, List.cons.injEq] at heq; rw [heq.1]; rfl
    rw [hzero hhead] at heq ⊢
    cases heq
    rfl
  · exact readDigits_append hds hrest

theorem readFraction_eq_some {cs rest : List Char} {found : Bool}
    (h : readFraction cs = some (found, rest)) :
    ∃ text, cs = text ++ rest ∧ IsFraction text ∧ found = !text.isEmpty := by
  unfold readFraction at h
  split at h
  · next cs =>
    obtain ⟨⟨ds, after⟩, hread, heq⟩ := Option.map_eq_some_iff.mp h
    cases heq
    obtain ⟨rfl, hds⟩ := readDigits_eq_some hread
    exact ⟨'.' :: ds, rfl, .inr ⟨ds, rfl, hds⟩, rfl⟩
  · cases h
    exact ⟨[], rfl, .inl rfl, rfl⟩

theorem readFraction_append {text rest : List Char} (h : IsFraction text)
    (hrest : NotAhead (fun c => c.isDigit || c == '.') rest) :
    readFraction (text ++ rest) = some (!text.isEmpty, rest) := by
  rcases h with rfl | ⟨ds, rfl, hds⟩
  · unfold readFraction
    split
    · next cs heq =>
      rw [List.nil_append] at heq
      have hdot := hrest '.' (by rw [heq]; rfl)
      exact absurd hdot (by decide)
    · rfl
  · have hdigits : NotAhead Char.isDigit rest := by
      intro c hc
      exact (Bool.or_eq_false_iff.mp (hrest c hc)).1
    show (readDigits (ds ++ rest)).map _ = _
    rw [readDigits_append hds hdigits]
    rfl

theorem exists_dropSign (cs : List Char) :
    ∃ sign, cs = sign ++ dropSign cs ∧ (sign = [] ∨ sign = ['+'] ∨ sign = ['-']) := by
  unfold dropSign
  split
  · exact ⟨['+'], rfl, .inr (.inl rfl)⟩
  · exact ⟨['-'], rfl, .inr (.inr rfl)⟩
  · exact ⟨[], rfl, .inl rfl⟩

theorem dropSign_append {sign ds rest : List Char} (h : IsDigitRow ds)
    (hsign : sign = [] ∨ sign = ['+'] ∨ sign = ['-']) :
    dropSign (sign ++ ds ++ rest) = ds ++ rest := by
  rcases hsign with rfl | rfl | rfl
  · obtain ⟨hne, hdigits⟩ := h
    cases ds with
    | nil => exact absurd rfl hne
    | cons c ds =>
      have hc := hdigits c (List.mem_cons_self ..)
      rw [List.nil_append, List.cons_append]
      unfold dropSign
      split
      · next heq => cases heq; exact absurd hc (by decide)
      · next heq => cases heq; exact absurd hc (by decide)
      · rfl
  · rfl
  · rfl

theorem readExponent_eq_some {cs rest : List Char} {found : Bool}
    (h : readExponent cs = some (found, rest)) :
    ∃ text, cs = text ++ rest ∧ IsExponent text ∧ found = !text.isEmpty := by
  have hmarked (mark : Char) (hmark : mark = 'e' ∨ mark = 'E') (tail : List Char)
      (hread : (readDigits (dropSign tail)).map (fun r => (true, r.2)) = some (found, rest)) :
      ∃ text, mark :: tail = text ++ rest ∧ IsExponent text ∧ found = !text.isEmpty := by
    obtain ⟨⟨ds, after⟩, hdigits, heq⟩ := Option.map_eq_some_iff.mp hread
    cases heq
    obtain ⟨hdrop, hds⟩ := readDigits_eq_some hdigits
    obtain ⟨sign, htail, hsign⟩ := exists_dropSign tail
    refine ⟨mark :: (sign ++ ds), ?_, .inr ⟨mark, sign, ds, rfl, hmark, hsign, hds⟩, rfl⟩
    rw [hdrop] at htail
    rw [htail]
    simp
  unfold readExponent at h
  split at h
  · exact hmarked 'e' (.inl rfl) _ h
  · exact hmarked 'E' (.inr rfl) _ h
  · cases h
    exact ⟨[], rfl, .inl rfl, rfl⟩

theorem readExponent_append {text rest : List Char} (h : IsExponent text)
    (hrest : NotAhead isNumberPart rest) :
    readExponent (text ++ rest) = some (!text.isEmpty, rest) := by
  rcases h with rfl | ⟨mark, sign, ds, rfl, hmark, hsign, hds⟩
  · unfold readExponent
    split
    · next cs heq =>
      exact absurd (hrest 'e' (by rw [← List.nil_append rest, heq]; rfl)) (by decide)
    · next cs heq =>
      exact absurd (hrest 'E' (by rw [← List.nil_append rest, heq]; rfl)) (by decide)
    · rfl
  · have hdigits : NotAhead Char.isDigit rest := by
      intro c hc
      have hpart := hrest c hc
      simp only [isNumberPart, Bool.or_eq_false_iff] at hpart
      exact hpart.1.1.1
    have hread : (readDigits (dropSign (sign ++ ds ++ rest))).map (fun r => (true, r.2)) =
        some (true, rest) := by
      rw [dropSign_append hds hsign, readDigits_append hds hdigits]
      rfl
    rcases hmark with rfl | rfl
    · exact hread
    · exact hread

theorem digitsValue_eq (ds : List Char) : digitsValue ds = Nat.ofDigitChars 10 ds 0 := by
  rw [digitsValue, Nat.ofDigitChars_eq_foldl]
  congr 1
  funext value c
  rw [Nat.mul_comm]

theorem readUnsigned_eq_some {cs rest : List Char} {value : Option Nat}
    (h : readUnsigned cs = some (value, rest)) :
    ∃ ds fraction exponent, cs = ds ++ (fraction ++ exponent) ++ rest ∧ IsWhole ds ∧
      IsFraction fraction ∧ IsExponent exponent ∧
      value = if fraction ++ exponent = [] then some (digitsValue ds) else none := by
  simp only [readUnsigned, Option.bind_eq_bind, Option.bind_eq_some_iff, Prod.exists] at h
  obtain ⟨ds, _, hwhole, fraction, _, hfraction, exponent, _, hexponent, heq⟩ := h
  cases heq
  obtain ⟨rfl, hds⟩ := readWhole_eq_some hwhole
  obtain ⟨fractionText, rfl, hisFraction, rfl⟩ := readFraction_eq_some hfraction
  obtain ⟨exponentText, rfl, hisExponent, rfl⟩ := readExponent_eq_some hexponent
  refine ⟨ds, fractionText, exponentText, by simp, hds, hisFraction, hisExponent, ?_⟩
  cases fractionText <;> cases exponentText <;> simp

theorem readUnsigned_append {ds fraction exponent rest : List Char} (hds : IsWhole ds)
    (hfraction : IsFraction fraction) (hexponent : IsExponent exponent)
    (hrest : NotAhead isNumberPart rest) :
    readUnsigned (ds ++ (fraction ++ exponent) ++ rest) =
      some (if fraction ++ exponent = [] then some (digitsValue ds) else none, rest) := by
  -- Each part is followed by a character that ends it.
  have hafterFraction : NotAhead (fun c => c.isDigit || c == '.') (exponent ++ rest) := by
    intro c hc
    rcases hexponent with rfl | ⟨mark, sign, digits, rfl, hmark, -, -⟩
    · have hpart := hrest c hc
      simp only [isNumberPart, Bool.or_eq_false_iff] at hpart
      simp [hpart.1.1.1, hpart.1.1.2]
    · cases hc
      rcases hmark with rfl | rfl <;> rfl
  have hafterWhole : NotAhead Char.isDigit (fraction ++ (exponent ++ rest)) := by
    intro c hc
    rcases hfraction with rfl | ⟨digits, rfl, -⟩
    · exact (Bool.or_eq_false_iff.mp (hafterFraction c hc)).1
    · cases hc
      rfl
  simp only [readUnsigned, List.append_assoc, readWhole_append hds hafterWhole,
    readFraction_append hfraction hafterFraction, readExponent_append hexponent hrest,
    Option.bind_eq_bind, Option.bind_some]
  cases fraction <;> cases exponent <;> simp

theorem readNumber_eq_some {cs rest : List Char} {value : Option Nat}
    (h : readNumber cs = some (value, rest)) :
    ∃ text, cs = text ++ rest ∧ IsNumber text value := by
  unfold readNumber at h
  split at h
  · obtain ⟨⟨value, after⟩, hread, heq⟩ := Option.map_eq_some_iff.mp h
    cases heq
    obtain ⟨ds, fraction, exponent, rfl, hds, hfraction, hexponent, -⟩ := readUnsigned_eq_some hread
    exact ⟨'-' :: (ds ++ (fraction ++ exponent)), rfl, .negative hds hfraction hexponent⟩
  · obtain ⟨ds, fraction, exponent, rfl, hds, hfraction, hexponent, rfl⟩ := readUnsigned_eq_some h
    refine ⟨ds ++ (fraction ++ exponent), rfl, ?_⟩
    by_cases hplain : fraction ++ exponent = []
    · rw [if_pos hplain, hplain, List.append_nil]
      refine .natural hds ?_
      rw [Text.isDigits_ten_iff]
      exact ⟨hds.1.1, hds.1.2, (digitsValue_eq ds).symm⟩
    · rw [if_neg hplain]
      exact .decimal hds hfraction hexponent hplain

theorem readNumber_append {text rest : List Char} {value : Option Nat} (h : IsNumber text value)
    (hrest : NotAhead isNumberPart rest) : readNumber (text ++ rest) = some (value, rest) := by
  have hunsigned (ds tail : List Char) (hds : IsWhole ds) :
      readNumber (ds ++ tail) = readUnsigned (ds ++ tail) := by
    unfold readNumber
    split
    · next cs heq =>
      obtain ⟨c, ds, rfl⟩ := List.exists_cons_of_ne_nil hds.1.1
      rw [List.cons_append, List.cons.injEq] at heq
      have hc := hds.1.2 c (List.mem_cons_self ..)
      rw [heq.1] at hc
      exact absurd hc (by decide)
    · rfl
  cases h with
  | natural hds hdigits =>
    obtain ⟨-, -, rfl⟩ := (Text.isDigits_ten_iff _ _).mp hdigits
    have hread := readUnsigned_append hds (.inl rfl) (.inl rfl) hrest
    rw [List.append_nil, List.append_nil, if_pos rfl, digitsValue_eq] at hread
    rw [hunsigned _ _ hds, hread]
  | decimal hds hfraction hexponent hne =>
    rw [List.append_assoc, hunsigned _ _ hds, ← List.append_assoc,
      readUnsigned_append hds hfraction hexponent hrest, if_neg hne]
  | negative hds hfraction hexponent =>
    rw [List.cons_append, readNumber, readUnsigned_append hds hfraction hexponent hrest]
    rfl

/-! ## Strings -/

theorem shortEscape?_eq_some_iff (letter c : Char) :
    shortEscape? letter = some c ↔ (letter, c) ∈ escapes := by
  unfold shortEscape? escapes
  split <;> simp_all [eq_comm]

/-- The value of four digits, the highest first. -/
theorem isDigits_four_iff (a b c d : Char) (code : Nat) :
    Text.IsDigits 16 [a, b, c, d] code ↔
      ∃ va, Text.IsDigit 16 a va ∧ ∃ vb, Text.IsDigit 16 b vb ∧ ∃ vc, Text.IsDigit 16 c vc ∧
        ∃ vd, Text.IsDigit 16 d vd ∧ ((va * 16 + vb) * 16 + vc) * 16 + vd = code := by
  have hvalue (va vb vc vd : Nat) :
      Nat.ofDigits 16 [va, vb, vc, vd].reverse = ((va * 16 + vb) * 16 + vc) * 16 + vd := by
    simp only [List.reverse_cons, List.reverse_nil, List.nil_append, List.cons_append,
      Nat.ofDigits_cons, Nat.ofDigits_nil]
    omega
  constructor
  · rintro ⟨values, -, hvalues, rfl⟩
    rcases hvalues with _ | ⟨ha, _ | ⟨hb, _ | ⟨hc, _ | ⟨hd, _ | _⟩⟩⟩⟩
    exact ⟨_, ha, _, hb, _, hc, _, hd, (hvalue _ _ _ _).symm⟩
  · rintro ⟨va, ha, vb, hb, vc, hc, vd, hd, rfl⟩
    exact ⟨[va, vb, vc, vd], by simp, .cons ha (.cons hb (.cons hc (.cons hd .nil))),
      hvalue va vb vc vd⟩

theorem hexValue?_eq_some_iff (a b c d : Char) (code : Nat) :
    hexValue? a b c d = some code ↔ Text.IsDigits 16 [a, b, c, d] code := by
  have hdigit (c : Char) (value : Nat) := Text.digit?_eq_some_iff 16 (by omega) c value
  simp only [hexValue?, isDigits_four_iff, Option.bind_eq_bind, Option.bind_eq_some_iff, hdigit,
    Option.pure_def, Option.some.injEq]

theorem readPieces_eq_some {cs rest : List Char} {pieces : List Piece}
    (h : readPieces cs = some (pieces, rest)) :
    ∃ inner, cs = inner ++ '"' :: rest ∧ SpellsAll inner pieces := by
  fun_induction readPieces cs generalizing pieces with
  | case1 => cases h
  | case2 cs =>
    cases h
    exact ⟨[], rfl, .nil⟩
  | case3 a b c d cs ih =>
    simp only [Option.bind_eq_bind, Option.bind_eq_some_iff, Prod.exists] at h
    obtain ⟨code, hcode, pieces, _, hread, heq⟩ := h
    cases heq
    obtain ⟨inner, rfl, hinner⟩ := ih hread
    have hspells := Spells.unit ((hexValue?_eq_some_iff a b c d code).mp hcode)
    exact ⟨_, rfl, .cons hspells hinner⟩
  | case4 letter cs _ ih =>
    simp only [Option.bind_eq_bind, Option.bind_eq_some_iff, Prod.exists] at h
    obtain ⟨c, hc, pieces, _, hread, heq⟩ := h
    cases heq
    obtain ⟨inner, rfl, hinner⟩ := ih hread
    have hspells := Spells.escape ((shortEscape?_eq_some_iff letter c).mp hc)
    exact ⟨_, rfl, .cons hspells hinner⟩
  | case5 c cs _ _ _ hrefused => cases h
  | case6 c cs hquote _ _ htaken ih =>
    rw [Bool.or_eq_true, not_or, beq_iff_eq, decide_eq_true_eq, Nat.not_lt] at htaken
    simp only [Option.bind_eq_bind, Option.bind_eq_some_iff, Prod.exists] at h
    obtain ⟨pieces, _, hread, heq⟩ := h
    cases heq
    obtain ⟨inner, rfl, hinner⟩ := ih hread
    have hspells := Spells.char (fun heq => hquote heq) htaken.1 htaken.2
    exact ⟨_, rfl, .cons hspells hinner⟩

theorem readPieces_append {inner : List Char} {pieces : List Piece} (h : SpellsAll inner pieces)
    (rest : List Char) : readPieces (inner ++ '"' :: rest) = some (pieces, rest) := by
  induction h with
  | nil => rfl
  | @cons text texts piece pieces hspells _ ih =>
    rw [List.append_assoc]
    cases hspells with
    | char hquote hslash hcontrol =>
      rw [List.singleton_append, readPieces]
      · simp [hslash, Nat.not_lt.mpr hcontrol, ih]
      · exact hquote
      · simp [hslash]
      · simp [hslash]
    | escape hescape =>
      rw [← shortEscape?_eq_some_iff] at hescape
      rw [List.cons_append, List.singleton_append, readPieces]
      · simp [hescape, ih]
      · rintro a b c d cs rfl
        simp [shortEscape?] at hescape
    | unit hdigits =>
      rw [← hexValue?_eq_some_iff] at hdigits
      simp [readPieces, hdigits, ih]

theorem lt_of_isDigits_four {a b c d : Char} {code : Nat}
    (h : Text.IsDigits 16 [a, b, c, d] code) : code < 0x10000 := by
  obtain ⟨va, ha, vb, hb, vc, hc, vd, hd, rfl⟩ := (isDigits_four_iff a b c d code).mp h
  have hva := ha.1
  have hvb := hb.1
  have hvc := hc.1
  have hvd := hd.1
  omega

theorem lt_of_mem_spellsAll {inner : List Char} {pieces : List Piece} (h : SpellsAll inner pieces)
    {code : Nat} (hcode : .unit code ∈ pieces) : code < 0x10000 := by
  induction h with
  | nil => cases hcode
  | cons hspells _ ih =>
    rcases List.mem_cons.mp hcode with rfl | hcode
    · cases hspells with
      | unit hdigits => exact lt_of_isDigits_four hdigits
    · exact ih hcode

theorem toNat_ofNat_of_isValidChar {n : Nat} (h : n.isValidChar) : (Char.ofNat n).toNat = n := by
  rw [Char.ofNat, dif_pos h]
  rfl

/-- No character is half of a pair. -/
theorem not_surrogate_toNat (c : Char) : c.toNat < 0xD800 ∨ 0xDFFF < c.toNat ∧ c.toNat < 0x110000 :=
  c.valid

/-- A code unit that is no half of a pair stands for a character, whatever follows it. -/
theorem decodePieces_unit {code : Nat} (h : code < 0xD800 ∨ 0xDFFF < code)
    (pieces : List Piece) :
    decodePieces (.unit code :: pieces) = (decodePieces pieces).map (Char.ofNat code :: ·) := by
  have hhigh : isHighSurrogate code = false := by
    simp only [isHighSurrogate, Bool.and_eq_false_iff, decide_eq_false_iff_not]
    omega
  have hlow : isLowSurrogate code = false := by
    simp only [isLowSurrogate, Bool.and_eq_false_iff, decide_eq_false_iff_not]
    omega
  rcases pieces with _ | ⟨_ | low, pieces⟩ <;> simp [decodePieces, hhigh, hlow]

theorem decodes_unit {code : Nat} (h : code < 0xD800 ∨ 0xDFFF < code) (hcode : code < 0x10000)
    {pieces : List Piece} {cs : List Char} (hpieces : Decodes pieces cs) :
    Decodes (.unit code :: pieces) (Char.ofNat code :: cs) := by
  have hvalid : code.isValidChar := by
    simp only [Nat.isValidChar]
    omega
  have hdecodes := Decodes.unit (c := Char.ofNat code) hpieces
  rw [toNat_ofNat_of_isValidChar hvalid] at hdecodes
  exact hdecodes

theorem decodes_of_decodePieces {pieces : List Piece} {cs : List Char}
    (hcodes : ∀ code, .unit code ∈ pieces → code < 0x10000)
    (h : decodePieces pieces = some cs) : Decodes pieces cs := by
  fun_induction decodePieces pieces generalizing cs with
  | case1 =>
    cases h
    exact .nil
  | case2 c pieces ih =>
    obtain ⟨cs, hcs, rfl⟩ := Option.map_eq_some_iff.mp h
    exact .char (ih (fun code hcode => hcodes code (List.mem_cons_of_mem _ hcode)) hcs)
  | case3 high low pieces hhigh hlow ih =>
    obtain ⟨cs, hcs, rfl⟩ := Option.map_eq_some_iff.mp h
    simp only [isHighSurrogate, isLowSurrogate, Bool.and_eq_true, decide_eq_true_eq] at hhigh hlow
    refine .pair hhigh.1 hhigh.2 hlow.1 hlow.2 (toNat_ofNat_of_isValidChar ?_) (ih ?_ hcs)
    · exact .inr ⟨by omega, by omega⟩
    · intro code hcode
      exact hcodes code (List.mem_cons_of_mem _ (List.mem_cons_of_mem _ hcode))
  | case4 high low pieces _ _ => cases h
  | case5 high low pieces _ _ => cases h
  | case6 code low pieces hhigh hlow ih =>
    obtain ⟨cs, hcs, rfl⟩ := Option.map_eq_some_iff.mp h
    simp only [isHighSurrogate, isLowSurrogate, Bool.and_eq_true, decide_eq_true_eq] at hhigh hlow
    have hpieces := ih (fun code hcode => hcodes code (List.mem_cons_of_mem _ hcode)) hcs
    exact decodes_unit (by omega) (hcodes code (List.mem_cons_self ..)) hpieces
  | case7 code pieces _ hsurrogate => cases h
  | case8 code pieces _ hsurrogate ih =>
    obtain ⟨cs, hcs, rfl⟩ := Option.map_eq_some_iff.mp h
    simp only [isHighSurrogate, isLowSurrogate, Bool.or_eq_true, Bool.and_eq_true,
      decide_eq_true_eq] at hsurrogate
    have hpieces := ih (fun code hcode => hcodes code (List.mem_cons_of_mem _ hcode)) hcs
    exact decodes_unit (by omega) (hcodes code (List.mem_cons_self ..)) hpieces

theorem decodePieces_of_decodes {pieces : List Piece} {cs : List Char} (h : Decodes pieces cs) :
    decodePieces pieces = some cs := by
  induction h with
  | nil => rfl
  | char _ ih =>
    rw [decodePieces, ih]
    rfl
  | @unit c pieces cs _ ih =>
    have hc := not_surrogate_toNat c
    rw [decodePieces_unit (by omega), ih, Option.map_some, Char.ofNat_toNat]
  | @pair high low c pieces cs hhigh hhigh' hlow hlow' hc _ ih =>
    have hishigh : isHighSurrogate high = true := by simp [isHighSurrogate, hhigh, hhigh']
    have hislow : isLowSurrogate low = true := by simp [isLowSurrogate, hlow, hlow']
    rw [decodePieces, if_pos hishigh, if_pos hislow, ih, Option.map_some, ← hc, Char.ofNat_toNat]

theorem map_decodePieces_eq_some_iff {inner : List Char} {pieces : List Piece}
    (h : SpellsAll inner pieces) (s : String) :
    (decodePieces pieces).map String.ofList = some s ↔ Decodes pieces s.toList := by
  rw [Option.map_eq_some_iff]
  constructor
  · rintro ⟨cs, hcs, rfl⟩
    rw [String.toList_ofList]
    exact decodes_of_decodePieces (fun _ hcode => lt_of_mem_spellsAll h hcode) hcs
  · intro hs
    exact ⟨s.toList, decodePieces_of_decodes hs, String.ofList_toList⟩

theorem readText_eq_some {cs rest : List Char} {value : Option String}
    (h : readText cs = some (value, rest)) :
    ∃ inner, cs = inner ++ '"' :: rest ∧ IsString inner value := by
  simp only [readText, Option.bind_eq_bind, Option.bind_eq_some_iff, Prod.exists] at h
  obtain ⟨pieces, _, hread, heq⟩ := h
  cases heq
  obtain ⟨inner, rfl, hinner⟩ := readPieces_eq_some hread
  exact ⟨inner, rfl, pieces, hinner, map_decodePieces_eq_some_iff hinner⟩

theorem readText_append {inner : List Char} {value : Option String} (h : IsString inner value)
    (rest : List Char) : readText (inner ++ '"' :: rest) = some (value, rest) := by
  obtain ⟨pieces, hinner, hvalue⟩ := h
  have heq : (decodePieces pieces).map String.ofList = value :=
    Option.ext fun s => (map_decodePieces_eq_some_iff hinner s).trans (hvalue s).symm
  rw [readText, readPieces_append hinner]
  exact congrArg (fun value => some (value, rest)) heq

end Mips.JsonValue
