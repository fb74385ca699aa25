/-! # Tables that keep the first of each kind

A table is offered items one after another. It takes an item to its end if the item is wanted and
none like it came before, and stays as it was otherwise. What is in the table is then a closed
expression in the items (`toList_foldl_offer`). -/

namespace Mips
set_option autoImplicit false

section
variable {σ α : Type} (offer : σ → α → σ) (toList : σ → List α) (Kept : σ → Prop)
  (wanted : α → Bool) (same : α → α → Bool)
  (hkept : ∀ state item, Kept state → Kept (offer state item))
  (hoffer : ∀ state item, Kept state → toList (offer state item) =
    if wanted item = true ∧ (toList state).any (same item) = false then toList state ++ [item]
    else toList state)
include hkept hoffer

/-- A run of offers goes over the items as the removal of duplicates does. -/
theorem toList_foldl_offer_eq_loop (items : List α) {state : σ} (h : Kept state) :
    toList (items.foldl offer state) =
      List.eraseDupsBy.loop same (items.filter wanted) (toList state).reverse := by
  -- The loop carries what it has kept so far with the latest first.
  induction items generalizing state with
  | nil => exact (List.reverse_reverse _).symm
  | cons item items ih =>
    rw [List.foldl_cons, ih (hkept state item h), hoffer state item h, List.filter_cons]
    by_cases hwanted : wanted item = true
    · rw [if_pos hwanted, List.eraseDupsBy.loop, List.any_reverse]
      by_cases hfree : (toList state).any (same item) = false
      · rw [if_pos ⟨hwanted, hfree⟩, hfree, List.reverse_append]
        rfl
      · rw [if_neg fun hboth => hfree hboth.2, Bool.not_eq_false _ |>.mp hfree]
    · rw [if_neg hwanted, if_neg fun hboth => hwanted hboth.1]

theorem toList_foldl_offer (items : List α) {start : σ} (h : Kept start)
    (hempty : toList start = []) :
    toList (items.foldl offer start) = (items.filter wanted).eraseDupsBy same := by
  rw [toList_foldl_offer_eq_loop offer toList Kept wanted same hkept hoffer items h, hempty]
  rfl

end

end Mips
