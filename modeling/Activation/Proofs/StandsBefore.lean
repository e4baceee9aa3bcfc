-- SUMMARY: One element standing before another in a list.
import Mathlib.Data.List.Nodup

/-!
# Standing before

`StandsBefore l a b` says that `a` occurs in `l` somewhere before an occurrence of
`b`. In a list without repeats this is a strict order on the members, any two of
which are comparable. A sublist keeps it in both directions.
-/

namespace Activation

variable {α β : Type*} {l m : List α} {a b c : α}

/-- The first element stands before the second in a list. -/
def StandsBefore (l : List α) (a b : α) : Prop := [a, b].Sublist l

namespace StandsBefore

theorem mem_left (h : StandsBefore l a b) : a ∈ l :=
  h.subset List.mem_cons_self

theorem mem_right (h : StandsBefore l a b) : b ∈ l :=
  h.subset (List.mem_cons_of_mem _ List.mem_cons_self)

theorem cons_iff : StandsBefore (c :: l) a b ↔ a = c ∧ b ∈ l ∨ StandsBefore l a b := by
  constructor
  · intro h
    cases h with
    | cons _ h => exact .inr h
    | cons_cons _ h => exact .inl ⟨rfl, List.singleton_sublist.1 h⟩
  · rintro (⟨rfl, hb⟩ | h)
    · exact (List.singleton_sublist.2 hb).cons_cons a
    · exact h.cons c

theorem of_sublist (hsub : m.Sublist l) (h : StandsBefore m a b) : StandsBefore l a b :=
  List.Sublist.trans h hsub

theorem map (f : α → β) (h : StandsBefore l a b) : StandsBefore (l.map f) (f a) (f b) :=
  List.Sublist.map f h

theorem reverse_iff : StandsBefore l.reverse a b ↔ StandsBefore l b a := by
  unfold StandsBefore
  rw [← List.reverse_sublist]
  simp

theorem total (ha : a ∈ l) (hb : b ∈ l) (hne : a ≠ b) :
    StandsBefore l a b ∨ StandsBefore l b a := by
  induction l with
  | nil => cases ha
  | cons c l ih =>
    simp only [cons_iff]
    rcases List.mem_cons.1 ha with rfl | hal
    · exact .inl (.inl ⟨rfl, (List.mem_cons.1 hb).resolve_left hne.symm⟩)
    · rcases List.mem_cons.1 hb with rfl | hbl
      · exact .inr (.inl ⟨rfl, hal⟩)
      · exact (ih hal hbl).imp .inr .inr

theorem ne (hnodup : l.Nodup) (h : StandsBefore l a b) : a ≠ b := by
  intro e
  subst e
  exact List.nodup_iff_sublist.1 hnodup a h

/-- Without repeats a member has one place, so standing before is transitive. -/
theorem trans (hnodup : l.Nodup) (hab : StandsBefore l a b) (hbc : StandsBefore l b c) :
    StandsBefore l a c := by
  induction l with
  | nil => cases hab
  | cons d l ih =>
    obtain ⟨hd, hnodup⟩ := List.nodup_cons.1 hnodup
    rcases cons_iff.1 hbc with ⟨rfl, -⟩ | hbc'
    · rcases cons_iff.1 hab with ⟨-, hb⟩ | hab'
      · exact absurd hb hd
      · exact absurd hab'.mem_right hd
    · rcases cons_iff.1 hab with ⟨rfl, -⟩ | hab'
      · exact cons_iff.2 (.inl ⟨rfl, hbc'.mem_right⟩)
      · exact cons_iff.2 (.inr (ih hnodup hab' hbc'))

theorem asymm (hnodup : l.Nodup) (h : StandsBefore l a b) : ¬ StandsBefore l b a :=
  fun h' => (h.trans hnodup h').ne hnodup rfl

/-- Of two members of a sublist, the one that stands first in the whole list does so in the
    sublist. -/
theorem restrict (hnodup : l.Nodup) (hsub : m.Sublist l) (ha : a ∈ m) (hb : b ∈ m)
    (h : StandsBefore l a b) : StandsBefore m a b := by
  rcases total ha hb (h.ne hnodup) with h' | h'
  · exact h'
  · exact absurd (h'.of_sublist hsub) (h.asymm hnodup)

theorem rel {R : α → α → Prop} (hl : l.Pairwise R) (h : StandsBefore l a b) : R a b :=
  List.pairwise_iff_forall_sublist.1 hl h

end StandsBefore

end Activation
