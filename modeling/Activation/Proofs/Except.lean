-- SUMMARY: What it means that a composed computation that may fail succeeds, or fails.
import Mathlib.Data.List.Forall2

/-!
# Success of computations that may fail

A composed computation gives a result when its parts do and fails with the first part that fails,
and reading a list item by item gives the list of what each item gives.
-/

namespace Activation

variable {ε ε' α β : Type}

theorem bind_eq_ok_iff {x : Except ε α} {f : α → Except ε β} {b : β} :
    (x >>= f) = .ok b ↔ ∃ a, x = .ok a ∧ f a = .ok b := by
  cases x with
  | error e => simp [bind, Except.bind]
  | ok a => simp [bind, Except.bind]

theorem bind_eq_error_iff {x : Except ε α} {f : α → Except ε β} {e : ε} :
    (x >>= f) = .error e ↔ x = .error e ∨ ∃ a, x = .ok a ∧ f a = .error e := by
  cases x with
  | error e => simp [bind, Except.bind]
  | ok a => simp [bind, Except.bind]

theorem map_eq_ok_iff {x : Except ε α} {f : α → β} {b : β} :
    x.map f = .ok b ↔ ∃ a, x = .ok a ∧ f a = b := by
  cases x with
  | error e => simp [Except.map]
  | ok a => simp [Except.map]

theorem fmap_eq_ok_iff {x : Except ε α} {f : α → β} {b : β} :
    f <$> x = .ok b ↔ ∃ a, x = .ok a ∧ f a = b :=
  map_eq_ok_iff

theorem mapError_eq_ok_iff {x : Except ε α} {f : ε → ε'} {a : α} :
    x.mapError f = .ok a ↔ x = .ok a := by
  cases x with
  | error e => simp [Except.mapError]
  | ok a => simp [Except.mapError]

/-- A result that is known by a property which no two share is known exactly. -/
theorem eq_ok_iff_of_unique {x : Except ε α} {p : Prop} {Holds : α → Prop}
    (succeeds : (∃ a, x = .ok a) ↔ p) (holds : ∀ a, x = .ok a → Holds a)
    (unique : ∀ a b, Holds a → Holds b → a = b) {a : α} : x = .ok a ↔ p ∧ Holds a := by
  constructor
  · intro h
    exact ⟨succeeds.1 ⟨a, h⟩, holds a h⟩
  · intro h
    obtain ⟨b, hb⟩ := succeeds.2 h.1
    exact unique b a (holds b hb) h.2 ▸ hb

/-- All of a list is read exactly if each item is, and the results stand in its order. -/
theorem mapM_eq_ok_iff {read : α → Except ε β} {xs : List α} {ys : List β} :
    xs.mapM read = .ok ys ↔ List.Forall₂ (fun x y => read x = .ok y) xs ys := by
  induction xs generalizing ys with
  | nil =>
    rw [List.mapM_nil, List.forall₂_nil_left_iff]
    show Except.ok [] = Except.ok ys ↔ ys = []
    rw [Except.ok.injEq, eq_comm]
  | cons x xs ih =>
    rw [List.mapM_cons, List.forall₂_cons_left_iff]
    simp only [bind_eq_ok_iff, ih]
    constructor
    · intro h
      obtain ⟨y, hy, ys', hys, h⟩ := h
      cases h
      exact ⟨y, ys', hy, hys, rfl⟩
    · intro h
      obtain ⟨y, ys', hy, hys, rfl⟩ := h
      exact ⟨y, hy, ys', hys, rfl⟩

theorem exists_forall₂_iff {R : α → β → Prop} {xs : List α} :
    (∃ ys, List.Forall₂ R xs ys) ↔ ∀ x ∈ xs, ∃ y, R x y := by
  induction xs with
  | nil => simp
  | cons x xs ih => simp [List.forall₂_cons_left_iff, ← ih]

theorem exists_mapM_eq_ok_iff {read : α → Except ε β} {xs : List α} :
    (∃ ys, xs.mapM read = .ok ys) ↔ ∀ x ∈ xs, ∃ y, read x = .ok y := by
  simp only [mapM_eq_ok_iff, exists_forall₂_iff]

/-- What was read from a list was read from one of its items. -/
theorem mem_of_mapM {read : α → Except ε β} {xs : List α} {ys : List β}
    (h : xs.mapM read = .ok ys) (y : β) : y ∈ ys ↔ ∃ x ∈ xs, read x = .ok y := by
  have hread := mapM_eq_ok_iff.1 h
  clear h
  induction hread with
  | nil => simp
  | cons hx _ ih => simp [ih, hx, eq_comm]

variable {step : β → α → Except ε β} {xs : List α} {start : β}

/-- Each step of a loop that gives a result gives one. -/
theorem exists_step_of_foldlM {last : β} (h : xs.foldlM step start = .ok last) :
    ∀ x ∈ xs, ∃ b b', step b x = .ok b' := by
  induction xs generalizing start with
  | nil => exact fun x hx => absurd hx List.not_mem_nil
  | cons x xs ih =>
    rw [List.foldlM_cons] at h
    obtain ⟨next, hnext, hrest⟩ := bind_eq_ok_iff.1 h
    intro y hy
    cases List.mem_cons.1 hy with
    | inl heq => exact ⟨start, next, heq ▸ hnext⟩
    | inr hmem => exact ih hrest y hmem

/-- A loop of which each step always gives a result gives one. -/
theorem exists_foldlM (h : ∀ x ∈ xs, ∀ b, ∃ b', step b x = .ok b') (start : β) :
    ∃ last, xs.foldlM step start = .ok last := by
  induction xs generalizing start with
  | nil => exact ⟨start, rfl⟩
  | cons x xs ih =>
    obtain ⟨next, hnext⟩ := h x List.mem_cons_self start
    obtain ⟨last, hlast⟩ := ih (fun y hy => h y (List.mem_cons_of_mem x hy)) next
    exact ⟨last, by rw [List.foldlM_cons, hnext]; exact hlast⟩

end Activation
