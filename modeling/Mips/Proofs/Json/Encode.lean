import Mips.Json.Encode
import Mips.Proofs.Json.Printing

/-! # What a listing holds as JSON

* `JsonValue.member?`: the members of an object, by their keys.
* `Listing.ShownBy`, `Listing.Entry.ShownBy`, `PlacedLabel.ShownBy`: the members that a listing, an
  entry and a label are shown by. They fix all of its fields.
* `Listing.shownBy_toJson`: a listing is shown so by its document. -/

namespace Mips
set_option autoImplicit false

/-- The value of the first member with a key. -/
def JsonValue.member? (key : String) : JsonValue → Option JsonValue
  | .object members => (members.find? (·.1 == some key)).map (·.2)
  | _ => none

structure PlacedLabel.ShownBy (label : PlacedLabel) (value : JsonValue) : Prop where
  name : value.member? "name" = some (.string (some label.name))
  slot : value.member? "index" = some (.number (some label.slot))
  address : value.member? "addr" = some (.number (some label.address.toNat))

structure Listing.Entry.ShownBy (entry : Listing.Entry) (value : JsonValue) : Prop where
  slot : value.member? "index" = some (.number (some entry.slot))
  address : value.member? "address" = some (.number (some entry.address.toNat))
  word : value.member? "word" = some (.number (some entry.word.toNat))
  disassembly : value.member? "disasm" = some (.string (some entry.disassembly))
  source : value.member? "source" = some (.string (some entry.source))
  label : value.member? "label" = some (entry.label.elim .null fun label => .string (some label))
  truncated : value.member? "overflow" =
    some (.string (some (entry.truncated.elim "" NarrowField.name)))

structure Listing.ShownBy (listing : Listing) (value : JsonValue) : Prop where
  base : value.member? "base" = some (.number (some listing.base.toNat))
  entries : ∃ items, value.member? "entries" = some (.array items) ∧
    List.Forall₂ Entry.ShownBy listing.entries items
  labels : ∃ items, value.member? "labels" = some (.array items) ∧
    List.Forall₂ PlacedLabel.ShownBy listing.labels items

theorem Json.value_nat (n : Nat) : (Json.nat n).value = .number (some n) := by
  simp [Json.nat, Json.value]

theorem Json.value_word (w : Word) : (Json.word w).value = .number (some w.toNat) :=
  value_nat w.toNat

theorem PlacedLabel.shownBy_toJson (label : PlacedLabel) : label.ShownBy label.toJson.value := by
  simp only [toJson, Json.value, Json.memberValues, Json.value_nat, Json.value_word]
  exact ⟨rfl, rfl, rfl⟩

/-- Items that are shown one by one. -/
theorem Json.forall₂_values {α : Type} {ShownBy : α → JsonValue → Prop} {toJson : α → Json}
    (h : ∀ a, ShownBy a (toJson a).value) (items : List α) :
    List.Forall₂ ShownBy items (values (items.map toJson)) := by
  induction items with
  | nil => exact .nil
  | cons item items ih => exact .cons (h item) ih

theorem Listing.Entry.shownBy_toJson (entry : Listing.Entry) :
    entry.ShownBy entry.toJson.value := by
  have hlabel : (Json.optionalString entry.label).value =
      entry.label.elim .null fun label => .string (some label) := by
    cases entry.label with
    | none => rfl
    | some label => rfl
  have htruncated : truncationText entry.truncated = entry.truncated.elim "" NarrowField.name := by
    cases entry.truncated with
    | none => rfl
    | some field => rfl
  simp only [toJson, Json.value, Json.memberValues, Json.value_nat, Json.value_word, hlabel,
    htruncated]
  exact ⟨rfl, rfl, rfl, rfl, rfl, rfl, rfl⟩

theorem Listing.shownBy_toJson (listing : Listing) : listing.ShownBy listing.toJson.value := by
  simp only [toJson, PlacedLabel.allToJson, Json.value, Json.memberValues, Json.value_word]
  exact ⟨rfl, ⟨_, rfl, Json.forall₂_values Entry.shownBy_toJson _⟩,
    ⟨_, rfl, Json.forall₂_values PlacedLabel.shownBy_toJson _⟩⟩

end Mips
