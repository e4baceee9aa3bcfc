-- SUMMARY: A stable sort keeps the order of arrival among elements that it does not tell apart.
import Activation.Proofs.StandsBefore

/-!
# Stable sorting

When a list that stands in one order is sorted by another, elements that the second order tells
apart stand as it says. The sort is stable, so the others stand as they arrived.
-/

namespace Activation

variable {α : Type*} {R : α → α → Prop} {le : α → α → Bool} {l : List α}

/-- A sorted list stands by the sort's order, and by the order of arrival where the sort could
    have gone either way. -/
theorem pairwise_mergeSort_of_pairwise (trans : ∀ a b c, le a b → le b c → le a c)
    (total : ∀ a b, (le a b || le b a) = true) (nodup : l.Nodup) (arrival : l.Pairwise R) :
    (l.mergeSort le).Pairwise fun a b => le a b = true ∧ (le b a = true → R a b) := by
  have perm : (l.mergeSort le).Perm l := List.mergeSort_perm l le
  have hnodup : (l.mergeSort le).Nodup := perm.nodup_iff.2 nodup
  refine List.pairwise_iff_forall_sublist.2 fun {a b} hab => ?_
  have hsorted := List.pairwise_mergeSort trans total l
  refine ⟨List.pairwise_iff_forall_sublist.1 hsorted hab, fun hle => ?_⟩
  have hne : a ≠ b := StandsBefore.ne hnodup hab
  have ha : a ∈ l := perm.mem_iff.1 (StandsBefore.mem_left hab)
  have hb : b ∈ l := perm.mem_iff.1 (StandsBefore.mem_right hab)
  cases StandsBefore.total ha hb hne with
  | inl hbefore => exact hbefore.rel arrival
  | inr hbefore =>
    -- The sort is stable, so `b` would stand before `a` in the sorted list too.
    have hkept : StandsBefore (l.mergeSort le) b a :=
      List.pair_sublist_mergeSort trans total hle hbefore
    exact absurd hkept (StandsBefore.asymm hnodup hab)

end Activation
