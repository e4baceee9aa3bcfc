-- SUMMARY: The baseline stands by hint, and by name where hints are equal.
import Activation.Order.Baseline
import Activation.Proofs.StableSort

/-!
# The baseline is sorted

Modules that arrive by name leave the sort by hint in strictly ascending order of
hint and name. The sort by hint alone decides on modules of different hints. On modules
of the same hint its stability decides, so the order of arrival does.
-/

namespace Activation.OrderHint

theorem le_trans {a b c : OrderHint} (hab : a ≤ b) (hbc : b ≤ c) : a ≤ c :=
  Int.le_trans hab hbc

theorem le_total (a b : OrderHint) : a ≤ b ∨ b ≤ a :=
  Int.le_total a.toInt b.toInt

theorem le_antisymm {a b : OrderHint} (hab : a ≤ b) (hba : b ≤ a) : a = b := by
  obtain ⟨m, _, _⟩ := a
  obtain ⟨n, _, _⟩ := b
  have heq : m = n := Int.le_antisymm hab hba
  subst heq
  rfl

theorem lt_of_not_le {a b : OrderHint} (h : ¬ b ≤ a) : a < b :=
  Int.lt_of_not_ge h

end Activation.OrderHint

namespace Activation.Order

/-- The first module has a lower hint, or the same hint and a smaller name. -/
def Declared.Earlier (a b : Declared) : Prop :=
  a.metadata.order < b.metadata.order ∨ a.metadata.order = b.metadata.order ∧ a.id < b.id

/-- The names of modules in the order of their baseline. -/
def baselineIds (modules : List Declared) : List ModuleId := (baseline modules).map (·.id)

/-- Modules in strictly ascending order of their names, as candidates are read. -/
def ByName (modules : List Declared) : Prop := modules.Pairwise fun a b => a.id < b.id

variable {modules : List Declared}

theorem baseline_perm (modules : List Declared) : (baseline modules).Perm modules :=
  List.mergeSort_perm _ _

@[simp] theorem mem_baseline {d : Declared} : d ∈ baseline modules ↔ d ∈ modules :=
  (baseline_perm modules).mem_iff

theorem mem_baselineIds {a : ModuleId} : a ∈ baselineIds modules ↔ a ∈ modules.map (·.id) :=
  ((baseline_perm modules).map _).mem_iff

theorem ByName.nodup_ids (h : ByName modules) : (modules.map (·.id)).Nodup := by
  refine List.pairwise_map.2 (List.Pairwise.imp (fun {a b} hlt heq => ?_) h)
  exact String.lt_irrefl b.id (heq ▸ hlt)

theorem ByName.nodup_baselineIds (h : ByName modules) : (baselineIds modules).Nodup :=
  ((baseline_perm modules).map _).nodup_iff.2 h.nodup_ids

theorem hint_le_trans (a b c : Declared) :
    decide (a.metadata.order ≤ b.metadata.order) → decide (b.metadata.order ≤ c.metadata.order) →
      decide (a.metadata.order ≤ c.metadata.order) := by
  simp only [decide_eq_true_eq]
  exact OrderHint.le_trans

theorem hint_le_total (a b : Declared) :
    (decide (a.metadata.order ≤ b.metadata.order) || decide (b.metadata.order ≤ a.metadata.order)) =
      true := by
  simp only [Bool.or_eq_true, decide_eq_true_eq]
  exact OrderHint.le_total _ _

/-- Modules that arrive by name leave the sort by hint and name. -/
theorem ByName.pairwise_baseline (h : ByName modules) :
    (baseline modules).Pairwise Declared.Earlier := by
  have hnodup : modules.Nodup := h.nodup_ids.of_map _
  have hsorted := pairwise_mergeSort_of_pairwise hint_le_trans hint_le_total hnodup h
  refine hsorted.imp fun {a b} hab => ?_
  have hle : a.metadata.order ≤ b.metadata.order := of_decide_eq_true hab.1
  by_cases hge : b.metadata.order ≤ a.metadata.order
  · exact .inr ⟨OrderHint.le_antisymm hle hge, hab.2 (decide_eq_true hge)⟩
  · exact .inl (OrderHint.lt_of_not_le hge)

end Activation.Order
