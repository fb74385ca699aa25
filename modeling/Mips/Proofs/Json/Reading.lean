import Mips.Proofs.Json.Grammar

/-! # Reading JSON

The reader takes the texts of the grammar and no others.

* `Sound`, `Complete`: the two halves, for a reader of values. The readers of items and members keep
  them, and so they hold of the reader of values at every depth.
* `parse?_eq_some_iff`: a text is read as a value exactly if it is a document of this value. So no
  text is a document of two values. -/

namespace Mips.JsonValue
set_option autoImplicit false

/-! ## White space -/

theorem isSpace_iff (c : Char) :
    isSpace c = true ↔ c = ' ' ∨ c = '\t' ∨ c = '\n' ∨ c = '\r' := by
  simp [isSpace, or_assoc]

theorem Spaces.refl (cs : List Char) : Spaces cs cs :=
  ⟨[], rfl, by simp⟩

theorem Spaces.trans {cs between rest : List Char} (h : Spaces cs between)
    (h' : Spaces between rest) : Spaces cs rest := by
  obtain ⟨before, rfl, hbefore⟩ := h
  obtain ⟨after, rfl, hafter⟩ := h'
  refine ⟨before ++ after, by simp, ?_⟩
  intro c hc
  rcases List.mem_append.mp hc with hc | hc
  · exact hbefore c hc
  · exact hafter c hc

theorem Spaces.length_le {cs rest : List Char} (h : Spaces cs rest) : rest.length ≤ cs.length := by
  obtain ⟨spaces, rfl, -⟩ := h
  simp

theorem spaces_skipSpace (cs : List Char) : Spaces cs (skipSpace cs) := by
  refine ⟨cs.takeWhile isSpace, List.takeWhile_append_dropWhile.symm, ?_⟩
  intro c hc
  exact (isSpace_iff c).mp (List.all_eq_true.mp List.all_takeWhile c hc)

theorem skipSpace_of_spaces {cs rest : List Char} (h : Spaces cs rest)
    (hrest : NotAhead isSpace rest) : skipSpace cs = rest := by
  obtain ⟨spaces, rfl, hspaces⟩ := h
  rw [skipSpace, List.dropWhile_append_of_pos, dropWhile_of_notAhead hrest]
  intro c hc
  exact (isSpace_iff c).mpr (hspaces c hc)

theorem notAhead_cons {kind : Char → Bool} {c : Char} (h : kind c = false) (rest : List Char) :
    NotAhead kind (c :: rest) := by
  intro d hd
  cases hd
  exact h

/-- White space goes on with no number. -/
theorem Spaces.notAhead {cs rest : List Char} (h : Spaces cs rest)
    (hrest : NotAhead isNumberPart rest) : NotAhead isNumberPart cs := by
  obtain ⟨spaces, rfl, hspaces⟩ := h
  cases spaces with
  | nil => exact hrest
  | cons c spaces =>
    apply notAhead_cons
    rcases hspaces c (List.mem_cons_self ..) with rfl | rfl | rfl | rfl <;> rfl

/-! ## Texts of values -/

theorem IsNumber.exists_cons {text : List Char} {value : Option Nat} (h : IsNumber text value) :
    ∃ c tail, text = c :: tail ∧ (c.isDigit = true ∨ c = '-') := by
  have hwhole (ds tail : List Char) (hds : IsWhole ds) :
      ∃ c tail', ds ++ tail = c :: tail' ∧ (c.isDigit = true ∨ c = '-') := by
    obtain ⟨c, ds, rfl⟩ := List.exists_cons_of_ne_nil hds.1.1
    exact ⟨c, ds ++ tail, rfl, .inl (hds.1.2 c (List.mem_cons_self ..))⟩
  cases h with
  | natural hds _ =>
    rw [← List.append_nil text]
    exact hwhole text [] hds
  | decimal hds _ _ _ => exact hwhole _ _ hds
  | negative _ _ _ => exact ⟨'-', _, rfl, .inr rfl⟩

/-- A text of a value starts with a character of its own. -/
theorem Writes.exists_cons {cs rest : List Char} {value : JsonValue} (h : Writes cs value rest) :
    ∃ c tail, cs = c :: tail ∧ isSpace c = false ∧ c ≠ ']' := by
  cases h with
  | number hnumber =>
    obtain ⟨c, tail, rfl, hc⟩ := hnumber.exists_cons
    refine ⟨c, tail ++ rest, rfl, Bool.eq_false_iff.mpr ?_, ?_⟩
    · intro hspace
      rcases (isSpace_iff c).mp hspace with rfl | rfl | rfl | rfl <;> exact absurd hc (by decide)
    · rintro rfl
      exact absurd hc (by decide)
  | _ => exact ⟨_, _, rfl, by decide, by decide⟩

mutual

theorem Writes.length_lt {cs rest : List Char} {value : JsonValue} :
    Writes cs value rest → rest.length < cs.length
  | .null => by
    simp only [List.length_cons]
    omega
  | .boolTrue => by
    simp only [List.length_cons]
    omega
  | .boolFalse => by
    simp only [List.length_cons]
    omega
  | .number hnumber => by
    obtain ⟨c, tail, rfl, -⟩ := hnumber.exists_cons
    simp only [List.length_cons, List.length_append]
    omega
  | .string _ => by
    simp only [List.length_cons, List.length_append]
    omega
  | .emptyArray hspaces => by
    have hle := hspaces.length_le
    simp only [List.length_cons] at hle ⊢
    omega
  | .array hitems => by
    have hlt := hitems.length_lt
    simp only [List.length_cons] at hlt ⊢
    omega
  | .emptyObject hspaces => by
    have hle := hspaces.length_le
    simp only [List.length_cons] at hle ⊢
    omega
  | .object hmembers => by
    have hlt := hmembers.length_lt
    simp only [List.length_cons] at hlt ⊢
    omega

theorem WritesItems.length_lt {cs rest : List Char} {items : List JsonValue} :
    WritesItems cs items rest → rest.length < cs.length
  | .last hbefore hitem hafter => by
    have := hbefore.length_le
    have := hitem.length_lt
    have := hafter.length_le
    omega
  | .cons hbefore hitem hafter hitems => by
    have := hbefore.length_le
    have := hitem.length_lt
    have hle := hafter.length_le
    have := hitems.length_lt
    rw [List.length_cons] at hle
    omega

theorem WritesMember.length_lt {cs rest : List Char} {member : Option String × JsonValue} :
    WritesMember cs member rest → rest.length < cs.length
  | .mk hkey _ hcolon hspaces hitem => by
    have hkey := hkey.length_le
    have hcolon := hcolon.length_le
    have := hspaces.length_le
    have := hitem.length_lt
    rw [List.length_cons, List.length_append, List.length_cons] at hkey
    rw [List.length_cons] at hcolon
    omega

theorem WritesMembers.length_lt {cs rest : List Char}
    {members : List (Option String × JsonValue)} :
    WritesMembers cs members rest → rest.length < cs.length
  | .last hmember hafter => by
    have := hmember.length_lt
    have := hafter.length_le
    omega
  | .cons hmember hafter hmembers => by
    have := hmember.length_lt
    have hle := hafter.length_le
    have := hmembers.length_lt
    rw [List.length_cons] at hle
    omega

end

theorem WritesItems.of_spaces {cs text rest : List Char} {items : List JsonValue}
    (hspaces : Spaces cs text) (h : WritesItems text items rest) : WritesItems cs items rest := by
  cases h with
  | last hbefore hitem hafter => exact .last (hspaces.trans hbefore) hitem hafter
  | cons hbefore hitem hafter hitems => exact .cons (hspaces.trans hbefore) hitem hafter hitems

theorem WritesMember.of_spaces {cs text rest : List Char} {member : Option String × JsonValue}
    (hspaces : Spaces cs text) (h : WritesMember text member rest) : WritesMember cs member rest := by
  cases h with
  | mk hkey hname hcolon hvalue hitem => exact .mk (hspaces.trans hkey) hname hcolon hvalue hitem

theorem WritesMembers.of_spaces {cs text rest : List Char}
    {members : List (Option String × JsonValue)} (hspaces : Spaces cs text)
    (h : WritesMembers text members rest) : WritesMembers cs members rest := by
  cases h with
  | last hmember hafter => exact .last (hmember.of_spaces hspaces) hafter
  | cons hmember hafter hmembers => exact .cons (hmember.of_spaces hspaces) hafter hmembers

/-! ## What is read is in the grammar -/

/-- The values that a reader takes are in the grammar. -/
def Sound (reader : Reader JsonValue) : Prop :=
  ∀ cs value rest, reader cs = some (value, rest) → ∃ text, Spaces cs text ∧ Writes text value rest

section Soundness
variable {reader : Reader JsonValue} (hreader : Sound reader)
include hreader

theorem readItems_eq_some {fuel : Nat} {cs rest : List Char} {items : List JsonValue}
    (h : readItems reader fuel cs = some (items, rest)) : WritesItems cs items (']' :: rest) := by
  induction fuel generalizing cs items with
  | zero => cases h
  | succ fuel ih =>
    simp only [readItems, Option.bind_eq_bind, Option.bind_eq_some_iff, Prod.exists] at h
    obtain ⟨item, after, hread, h⟩ := h
    obtain ⟨text, hbefore, hitem⟩ := hreader cs item after hread
    have hafter := spaces_skipSpace after
    split at h
    · next next hskip =>
      simp only [Option.bind_eq_some_iff, Prod.exists] at h
      obtain ⟨items, _, hitems, heq⟩ := h
      cases heq
      rw [hskip] at hafter
      exact .cons hbefore hitem hafter (ih hitems)
    · next next hskip =>
      cases h
      rw [hskip] at hafter
      exact .last hbefore hitem hafter
    · cases h

theorem readMember_eq_some {cs rest : List Char} {member : Option String × JsonValue}
    (h : readMember reader cs = some (member, rest)) : WritesMember cs member rest := by
  have hbefore := spaces_skipSpace cs
  unfold readMember at h
  split at h
  · next body hskip =>
    simp only [Option.bind_eq_bind, Option.bind_eq_some_iff, Prod.exists] at h
    obtain ⟨name, colon, hname, h⟩ := h
    obtain ⟨key, rfl, hkey⟩ := readText_eq_some hname
    have hcolon := spaces_skipSpace colon
    split at h
    · next afterColon hskip' =>
      simp only [Option.bind_eq_some_iff, Prod.exists] at h
      obtain ⟨item, _, hread, heq⟩ := h
      cases heq
      obtain ⟨text, hspaces, hitem⟩ := hreader _ _ _ hread
      rw [hskip] at hbefore
      rw [hskip'] at hcolon
      exact .mk hbefore hkey hcolon hspaces hitem
    · cases h
  · cases h

theorem readMembers_eq_some {fuel : Nat} {cs rest : List Char}
    {members : List (Option String × JsonValue)}
    (h : readMembers reader fuel cs = some (members, rest)) :
    WritesMembers cs members ('\x7d' :: rest) := by
  induction fuel generalizing cs members with
  | zero => cases h
  | succ fuel ih =>
    simp only [readMembers, Option.bind_eq_bind, Option.bind_eq_some_iff, Prod.exists] at h
    obtain ⟨name, item, after, hread, h⟩ := h
    have hmember := readMember_eq_some hreader hread
    have hafter := spaces_skipSpace after
    split at h
    · next next hskip =>
      simp only [Option.bind_eq_some_iff, Prod.exists] at h
      obtain ⟨members, _, hmembers, heq⟩ := h
      cases heq
      rw [hskip] at hafter
      exact .cons hmember hafter (ih hmembers)
    · next next hskip =>
      cases h
      rw [hskip] at hafter
      exact .last hmember hafter
    · cases h

end Soundness

theorem sound_readValue (fuel : Nat) : Sound (readValue fuel) := by
  induction fuel with
  | zero =>
    intro cs value rest h
    cases h
  | succ fuel ih =>
    intro cs value rest h
    refine ⟨skipSpace cs, spaces_skipSpace cs, ?_⟩
    rw [readValue] at h
    split at h
    · next body hskip =>
      obtain ⟨⟨text, after⟩, hread, heq⟩ := Option.map_eq_some_iff.mp h
      cases heq
      obtain ⟨inner, rfl, hinner⟩ := readText_eq_some hread
      rw [hskip]
      exact .string hinner
    · next body hskip =>
      rw [hskip]
      have hbefore := spaces_skipSpace body
      split at h
      · next after hempty =>
        cases h
        rw [hempty] at hbefore
        exact .emptyArray hbefore
      · obtain ⟨⟨items, after⟩, hread, heq⟩ := Option.map_eq_some_iff.mp h
        cases heq
        exact .array ((readItems_eq_some ih hread).of_spaces hbefore)
    · next body hskip =>
      rw [hskip]
      have hbefore := spaces_skipSpace body
      split at h
      · next after hempty =>
        cases h
        rw [hempty] at hbefore
        exact .emptyObject hbefore
      · obtain ⟨⟨members, after⟩, hread, heq⟩ := Option.map_eq_some_iff.mp h
        cases heq
        exact .object ((readMembers_eq_some ih hread).of_spaces hbefore)
    · next hskip =>
      cases h
      rw [hskip]
      exact .null
    · next hskip =>
      cases h
      rw [hskip]
      exact .boolTrue
    · next hskip =>
      cases h
      rw [hskip]
      exact .boolFalse
    · obtain ⟨⟨number, after⟩, hread, heq⟩ := Option.map_eq_some_iff.mp h
      cases heq
      obtain ⟨text, htext, hnumber⟩ := readNumber_eq_some hread
      rw [htext]
      exact .number hnumber

/-! ## What is in the grammar is read -/

/-- A reader takes the values with a text below a length, if no number goes on after them. -/
def Complete (reader : Reader JsonValue) (bound : Nat) : Prop :=
  ∀ cs text value rest, Spaces cs text → Writes text value rest → cs.length < bound →
    NotAhead isNumberPart rest → reader cs = some (value, rest)

section Completeness
variable {reader : Reader JsonValue} {bound : Nat} (hreader : Complete reader bound)
include hreader

theorem readItems_of_writesItems {fuel : Nat} {cs rest : List Char} {items : List JsonValue}
    (h : WritesItems cs items (']' :: rest)) (hfuel : cs.length ≤ fuel) (hbound : cs.length < bound) :
    readItems reader fuel cs = some (items, rest) := by
  induction fuel generalizing cs items with
  | zero =>
    have := h.length_lt
    omega
  | succ fuel ih =>
    cases h with
    | last hbefore hitem hafter =>
      have hread := hreader _ _ _ _ hbefore hitem hbound (hafter.notAhead (notAhead_cons rfl rest))
      simp only [readItems, hread, Option.bind_eq_bind, Option.bind_some,
        skipSpace_of_spaces hafter (notAhead_cons rfl rest)]
      rfl
    | @cons _ text after next _ item items hbefore hitem hafter hitems =>
      have hread := hreader _ _ _ _ hbefore hitem hbound (hafter.notAhead (notAhead_cons rfl next))
      have hlt : next.length < cs.length := by
        have := hbefore.length_le
        have := hitem.length_lt
        have hle := hafter.length_le
        rw [List.length_cons] at hle
        omega
      simp only [readItems, hread, Option.bind_eq_bind, Option.bind_some,
        skipSpace_of_spaces hafter (notAhead_cons rfl next), ih hitems (by omega) (by omega)]
      rfl

theorem readMember_of_writesMember {cs rest : List Char} {member : Option String × JsonValue}
    (h : WritesMember cs member rest) (hbound : cs.length < bound)
    (hrest : NotAhead isNumberPart rest) : readMember reader cs = some (member, rest) := by
  cases h with
  | @mk _ key colon afterColon text _ name item hkey hname hcolon hspaces hitem =>
    have hlt : afterColon.length < cs.length := by
      have hkey := hkey.length_le
      have hcolon := hcolon.length_le
      rw [List.length_cons, List.length_append, List.length_cons] at hkey
      rw [List.length_cons] at hcolon
      omega
    have hread := hreader _ _ _ _ hspaces hitem (by omega) hrest
    simp only [readMember, skipSpace_of_spaces hkey (notAhead_cons rfl _), readText_append hname,
      Option.bind_eq_bind, Option.bind_some, skipSpace_of_spaces hcolon (notAhead_cons rfl _),
      hread]
    rfl

theorem readMembers_of_writesMembers {fuel : Nat} {cs rest : List Char}
    {members : List (Option String × JsonValue)} (h : WritesMembers cs members ('\x7d' :: rest))
    (hfuel : cs.length ≤ fuel) (hbound : cs.length < bound) :
    readMembers reader fuel cs = some (members, rest) := by
  induction fuel generalizing cs members with
  | zero =>
    have := h.length_lt
    omega
  | succ fuel ih =>
    cases h with
    | last hmember hafter =>
      have hread := readMember_of_writesMember hreader hmember hbound
        (hafter.notAhead (notAhead_cons rfl rest))
      simp only [readMembers, hread, Option.bind_eq_bind, Option.bind_some,
        skipSpace_of_spaces hafter (notAhead_cons rfl rest)]
      rfl
    | @cons _ after next _ member members hmember hafter hmembers =>
      have hread := readMember_of_writesMember hreader hmember hbound
        (hafter.notAhead (notAhead_cons rfl next))
      have hlt : next.length < cs.length := by
        have := hmember.length_lt
        have hle := hafter.length_le
        rw [List.length_cons] at hle
        omega
      simp only [readMembers, hread, Option.bind_eq_bind, Option.bind_some,
        skipSpace_of_spaces hafter (notAhead_cons rfl next), ih hmembers (by omega) (by omega)]
      rfl

end Completeness

theorem Writes.skipSpace_eq {cs text rest : List Char} {value : JsonValue}
    (h : Writes text value rest) (hspaces : Spaces cs text) : skipSpace cs = text := by
  obtain ⟨c, tail, rfl, hc, -⟩ := h.exists_cons
  exact skipSpace_of_spaces hspaces (notAhead_cons hc tail)

theorem WritesItems.exists_skipSpace {cs rest : List Char} {items : List JsonValue}
    (h : WritesItems cs items rest) :
    (∀ tail, skipSpace cs ≠ ']' :: tail) ∧ WritesItems (skipSpace cs) items rest := by
  have hstart {text after : List Char} {item : JsonValue} (hitem : Writes text item after) :
      ∀ tail, text ≠ ']' :: tail := by
    obtain ⟨c, tail, rfl, -, hc⟩ := hitem.exists_cons
    rintro _ ⟨⟩
    exact hc rfl
  cases h with
  | last hbefore hitem hafter =>
    rw [hitem.skipSpace_eq hbefore]
    exact ⟨hstart hitem, .last (.refl _) hitem hafter⟩
  | cons hbefore hitem hafter hitems =>
    rw [hitem.skipSpace_eq hbefore]
    exact ⟨hstart hitem, .cons (.refl _) hitem hafter hitems⟩

theorem WritesMember.exists_skipSpace {cs rest : List Char} {member : Option String × JsonValue}
    (h : WritesMember cs member rest) :
    (∀ tail, skipSpace cs ≠ '\x7d' :: tail) ∧ WritesMember (skipSpace cs) member rest := by
  cases h with
  | mk hkey hname hcolon hspaces hitem =>
    rw [skipSpace_of_spaces hkey (notAhead_cons rfl _)]
    exact ⟨by simp, .mk (.refl _) hname hcolon hspaces hitem⟩

theorem WritesMembers.exists_skipSpace {cs rest : List Char}
    {members : List (Option String × JsonValue)} (h : WritesMembers cs members rest) :
    (∀ tail, skipSpace cs ≠ '\x7d' :: tail) ∧ WritesMembers (skipSpace cs) members rest := by
  cases h with
  | last hmember hafter => exact ⟨hmember.exists_skipSpace.1, .last hmember.exists_skipSpace.2 hafter⟩
  | cons hmember hafter hmembers =>
    exact ⟨hmember.exists_skipSpace.1, .cons hmember.exists_skipSpace.2 hafter hmembers⟩

/-- Each level of nesting spends a character, and so does each item. -/
theorem complete_readValue (fuel : Nat) : Complete (readValue fuel) fuel := by
  induction fuel with
  | zero =>
    intro cs text value rest _ _ hbound
    omega
  | succ fuel ih =>
    intro cs text value rest hspaces hwrites hbound hrest
    have htext := hspaces.length_le
    rw [readValue, hwrites.skipSpace_eq hspaces]
    cases hwrites with
    | null => rfl
    | boolTrue => rfl
    | boolFalse => rfl
    | @number text _ value hnumber =>
      have hstart {c : Char} {tail : List Char} (heq : text ++ rest = c :: tail) :
          c.isDigit = true ∨ c = '-' := by
        obtain ⟨c, tail, rfl, hc⟩ := hnumber.exists_cons
        cases heq
        exact hc
      split
      iterate 6 next heq => exact absurd (hstart heq) (by decide)
      rw [readNumber_append hnumber hrest]
      rfl
    | string hstring =>
      show (readText _).map _ = _
      rw [readText_append hstring]
      rfl
    | @emptyArray body _ hbody =>
      simp only [skipSpace_of_spaces hbody (notAhead_cons rfl rest)]
    | @array body _ items hitems =>
      have hle := (spaces_skipSpace body).length_le
      rw [List.length_cons] at htext
      obtain ⟨hne, hitems⟩ := hitems.exists_skipSpace
      -- by `hne` the list does not end at once
      simp only
      rw [readItems_of_writesItems ih hitems (by omega) (by omega)]
      rfl
    | @emptyObject body _ hbody =>
      simp only [skipSpace_of_spaces hbody (notAhead_cons rfl rest)]
    | @object body _ members hmembers =>
      have hle := (spaces_skipSpace body).length_le
      rw [List.length_cons] at htext
      obtain ⟨hne, hmembers⟩ := hmembers.exists_skipSpace
      -- by `hne` the list does not end at once
      simp only
      rw [readMembers_of_writesMembers ih hmembers (by omega) (by omega)]
      rfl

/-! ## Documents -/

theorem parse?_eq_some_iff (s : String) (value : JsonValue) :
    parse? s = some value ↔ IsDocument s value := by
  simp only [parse?, Option.bind_eq_bind, Option.bind_eq_some_iff, Prod.exists]
  constructor
  · rintro ⟨found, rest, hread, hfound⟩
    obtain ⟨text, hspaces, hwrites⟩ := sound_readValue _ _ _ _ hread
    have hrest := spaces_skipSpace rest
    split at hfound
    · next hempty =>
      cases hfound
      rw [List.isEmpty_iff.mp hempty] at hrest
      exact ⟨text, rest, hspaces, hwrites, hrest⟩
    · cases hfound
  · rintro ⟨text, rest, hspaces, hwrites, hrest⟩
    have hend : NotAhead isSpace [] := by simp [NotAhead]
    have hread := complete_readValue (s.toList.length + 1) _ _ _ _ hspaces hwrites (by omega)
      (hrest.notAhead (by simp [NotAhead]))
    refine ⟨value, rest, hread, ?_⟩
    rw [skipSpace_of_spaces hrest hend]
    rfl

end Mips.JsonValue
