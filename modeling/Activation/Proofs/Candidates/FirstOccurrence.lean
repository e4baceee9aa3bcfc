-- SUMMARY: Distinct candidates stand where they first occur, and removing repeats commutes with exclusion.
import Activation.Proofs.Candidates
import Activation.Proofs.Exclusion
import Mathlib.Data.List.Nodup

/-!
# First occurrences

What `distinct` gives of a list is determined by three properties: it lists each id once, it
lists the ids of the list, and it lists them in the order of their first positions. Going on with a
second list adds those of its ids that the first one does not have. So removing repeats once more
changes nothing, and it does not matter whether ids are excluded before or after it.
-/

namespace Activation.Candidates

variable {seen ids firsts firsts' : List ModuleId} {id : ModuleId}

/-- The ids of a list, each once, in the order of their first positions in the list. -/
structure FirstOccurrences (ids firsts : List ModuleId) : Prop where
  nodup : firsts.Nodup
  mem_iff : ∀ id, id ∈ firsts ↔ id ∈ ids
  ordered : firsts.Pairwise fun a b => ids.idxOf a < ids.idxOf b

/-- Of two lists, one after the other, the second adds those ids that the first one does not
    have. -/
structure Continues (f : List ModuleId → List ModuleId) : Prop where
  single : ∀ id, f [id] = [id]
  append : ∀ ids ids', f (ids ++ ids') = f ids ++ (f ids').filter (· ∉ ids)

/-! ## The ids seen so far -/

/-- The seen ids are dropped from what a list gives by itself. -/
theorem distinctFrom_eq_filter (seen ids : List ModuleId) :
    distinctFrom seen ids = (distinct ids).filter (· ∉ seen) := by
  induction ids generalizing seen with
  | nil => rfl
  | cons id ids ih =>
    have hfirst : distinct (id :: ids) = id :: (distinct ids).filter (· ≠ id) := by
      simp only [distinct, distinctFrom, List.not_mem_nil, if_false, ih [id], List.mem_singleton,
        ne_eq]
    simp only [distinctFrom, hfirst]
    split
    case isTrue hseen =>
      simp only [ih seen, hseen, List.filter_cons, List.filter_filter, not_true_eq_false,
        decide_false, Bool.false_eq_true, if_false]
      refine List.filter_congr fun a _ => ?_
      by_cases ha : a = id
      · simp [ha, hseen]
      · simp [ha]
    case isFalse hnew =>
      simp only [ih (id :: seen), hnew, List.filter_cons, List.filter_filter, not_false_eq_true,
        decide_true, if_true]
      simp [Bool.and_comm]

/-- The first id is kept and taken out of the rest, where it is a repeat. -/
theorem distinct_cons (id : ModuleId) (ids : List ModuleId) :
    distinct (id :: ids) = id :: (distinct ids).filter (· ≠ id) := by
  simp only [distinct, distinctFrom, List.not_mem_nil, if_false]
  simp only [distinctFrom_eq_filter [id] ids, distinct, List.mem_singleton, ne_eq]

theorem continues_distinct : Continues distinct where
  single _ := rfl
  append ids ids' := by
    induction ids with
    | nil => simp [distinct, distinctFrom]
    | cons id ids ih =>
      simp only [List.cons_append, distinct_cons, ih, List.filter_append, List.filter_filter]
      simp [List.mem_cons, not_or]

/-- A repeat is deleted with its first occurrence, so deleting and dropping repeats commute. -/
theorem distinct_filter (p : ModuleId → Bool) (ids : List ModuleId) :
    distinct (ids.filter p) = (distinct ids).filter p := by
  induction ids with
  | nil => rfl
  | cons id ids ih =>
    cases hp : p id with
    | true =>
      simp only [List.filter_cons, hp, if_true, distinct_cons, ih, List.filter_filter,
        Bool.and_comm]
    | false =>
      simp only [List.filter_cons, hp, Bool.false_eq_true, if_false, distinct_cons, ih,
        List.filter_filter]
      refine List.filter_congr fun a _ => ?_
      by_cases ha : a = id
      · simp [ha, hp]
      · simp [ha]

theorem distinct_of_nodup (h : ids.Nodup) : distinct ids = ids := by
  induction ids with
  | nil => rfl
  | cons id ids ih =>
    obtain ⟨hnew, hnodup⟩ := List.nodup_cons.1 h
    simp only [distinct_cons, ih hnodup]
    refine congrArg _ (List.filter_eq_self.2 fun a ha => ?_)
    exact decide_eq_true fun heq => hnew (heq ▸ ha)

/-! ## First positions -/

/-- Distinct ids are in the order of their first positions. -/
theorem ordered_distinct (ids : List ModuleId) :
    (distinct ids).Pairwise fun a b => ids.idxOf a < ids.idxOf b := by
  induction ids with
  | nil => exact .nil
  | cons id ids ih =>
    have hlater : ∀ a, a ≠ id → (id :: ids).idxOf a = ids.idxOf a + 1 :=
      fun a ha => List.idxOf_cons_ne ids ha.symm
    have hne : ∀ a ∈ (distinct ids).filter (· ≠ id), a ≠ id :=
      fun a ha => of_decide_eq_true (List.mem_filter.1 ha).2
    simp only [distinct_cons, List.pairwise_cons, List.idxOf_cons_self]
    refine ⟨fun a ha => hlater a (hne a ha) ▸ Nat.succ_pos _, ?_⟩
    refine (ih.filter _).imp_of_mem fun {a b} ha hb hlt => ?_
    simpa only [hlater a (hne a ha), hlater b (hne b hb), Nat.add_lt_add_iff_right] using hlt

theorem firstOccurrences_distinct (ids : List ModuleId) : FirstOccurrences ids (distinct ids) where
  nodup := nodup_distinct ids
  mem_iff _ := mem_distinct
  ordered := ordered_distinct ids

/-- There is only one way to list first occurrences. -/
theorem FirstOccurrences.unique (h : FirstOccurrences ids firsts)
    (h' : FirstOccurrences ids firsts') : firsts = firsts' := by
  have hperm : firsts.Perm firsts' :=
    (List.perm_ext_iff_of_nodup h.nodup h'.nodup).2
      fun id => (h.mem_iff id).trans (h'.mem_iff id).symm
  exact hperm.eq_of_pairwise (fun _ _ _ _ hlt hgt => absurd hgt (Nat.lt_asymm hlt)) h.ordered
    h'.ordered

theorem firstOccurrences_iff : FirstOccurrences ids firsts ↔ firsts = distinct ids := by
  refine ⟨fun h => h.unique (firstOccurrences_distinct ids), fun h => ?_⟩
  exact h ▸ firstOccurrences_distinct ids

/-- What is done to one list after the other is known from what is done to single ids. -/
theorem Continues.eq_distinct {f : List ModuleId → List ModuleId} (h : Continues f) :
    f = distinct := by
  funext ids
  induction ids with
  | nil =>
    have hnil : f [] = [] := by simpa using h.append [] []
    exact hnil
  | cons id ids ih =>
    have hcons := h.append [id] ids
    have hcons' := continues_distinct.append [id] ids
    simp only [List.singleton_append] at hcons hcons'
    simp only [hcons, hcons', h.single, continues_distinct.single, ih]

/-- Listing first occurrences and continuing over an appended list determine the same function. -/
theorem firstOccurrences_iff_continues {f : List ModuleId → List ModuleId} :
    (∀ ids, FirstOccurrences ids (f ids)) ↔ Continues f := by
  constructor
  · intro h
    have hf : f = distinct := funext fun ids => firstOccurrences_iff.1 (h ids)
    exact hf ▸ continues_distinct
  · intro h ids
    exact firstOccurrences_iff.2 (congrFun h.eq_distinct ids)

/-! ## Exclusion -/

theorem standing_distinct (candidates : List ModuleId) (isLoadable : Locator) (name : String) :
    Exclusion.standing (distinct candidates) isLoadable name =
      Exclusion.standing candidates isLoadable name := by
  by_cases h : name ∈ candidates
  · simp only [Exclusion.standing, mem_distinct.2 h, h, if_true]
  · simp only [Exclusion.standing, mt mem_distinct.1 h, h, if_false]

/-- Exclusions are judged by the same modules and remove the same ones, whether repeats are removed
    before or after. -/
theorem apply_distinct {σ : Type} (candidates : List ModuleId) (exclusions : NameSet)
    (isLoadable : Locator) :
    (Exclusion.apply (distinct candidates) exclusions isLoadable : Run σ _ _) =
      (do return distinct (← Exclusion.apply candidates exclusions isLoadable)) := by
  apply Run.ext_exec
  intro l
  simp only [Exclusion.apply, Exclusion.invalid, Exclusion.ofStanding, standing_distinct,
    Run.exec_bind, Run.exec_report, Run.exec_pure]
  cases exclusions.toList.filter fun name =>
      Exclusion.standing candidates isLoadable name = .foreign with
  | nil => simp only [Run.exec_pure, distinct_filter]
  | cons name names => simp only [Run.exec_throw]

/-- Removing repeats keeps first occurrences, and nothing else does. What comes of a list after
    another is what comes of it alone but for the ids of the other. Repeats are removed once, and
    before or after any ids are deleted or excluded. -/
theorem distinct_keeps_first_occurrences :
    (∀ ids firsts, firsts = distinct ids ↔ FirstOccurrences ids firsts) ∧
    (∀ ids ids', distinct (ids ++ ids') = distinct ids ++ (distinct ids').filter (· ∉ ids)) ∧
    (∀ f : List ModuleId → List ModuleId,
      (∀ ids, FirstOccurrences ids (f ids)) ↔ Continues f) ∧
    (∀ ids, distinct (distinct ids) = distinct ids) ∧
    (∀ p ids, distinct (ids.filter p) = (distinct ids).filter p) ∧
    ∀ {σ : Type} candidates exclusions isLoadable,
      (Exclusion.apply (distinct candidates) exclusions isLoadable : Run σ _ _) =
        (do return distinct (← Exclusion.apply candidates exclusions isLoadable)) := by
  refine ⟨fun _ _ => firstOccurrences_iff.symm, continues_distinct.append,
    fun _ => firstOccurrences_iff_continues, ?idempotent, distinct_filter, apply_distinct⟩
  case idempotent => exact fun ids => distinct_of_nodup (nodup_distinct ids)

end Activation.Candidates
