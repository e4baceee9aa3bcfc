-- SUMMARY: Insertion into strictly ascending lists, and why such a list is determined by its members.

/-!
# Strictly ascending lists

A finite set of ordered things can be stored as the strictly ascending list of
its members. `place` adds a member; what it keeps holds of every strict total
order, so the order's laws are passed as hypotheses.
-/

namespace Activation.Ascending

variable {α : Type} [LT α] [DecidableLT α] [DecidableEq α]

/-- Put an element at its place in a strictly ascending list, unless it is there. -/
def place (x : α) : List α → List α
  | [] => [x]
  | y :: rest =>
    if x < y then x :: y :: rest
    else if x = y then y :: rest
    else y :: place x rest

@[simp] theorem mem_place {x y : α} {l : List α} : y ∈ place x l ↔ y = x ∨ y ∈ l := by
  induction l with
  | nil => simp [place]
  | cons z rest ih =>
    rw [place]
    split
    · simp
    · split
      · rename_i h
        subst h
        simp
      · simp only [List.mem_cons, ih]
        exact ⟨fun h => by rcases h with h | h | h <;> simp [h],
          fun h => by rcases h with h | h | h <;> simp [h]⟩

/-- Placing an element keeps a list strictly ascending. -/
theorem pairwise_place (trans : ∀ {a b c : α}, a < b → b < c → a < c)
    (total : ∀ {a b : α}, ¬ a < b → a ≠ b → b < a) {x : α} {l : List α}
    (h : l.Pairwise (· < ·)) : (place x l).Pairwise (· < ·) := by
  induction l with
  | nil => simp [place]
  | cons y rest ih =>
    obtain ⟨first, later⟩ := List.pairwise_cons.1 h
    rw [place]
    split
    · rename_i lt
      refine List.pairwise_cons.2 ⟨fun z hz => ?_, h⟩
      rcases List.mem_cons.1 hz with rfl | hz
      · exact lt
      · exact trans lt (first z hz)
    · split
      · exact h
      · rename_i nlt ne
        refine List.pairwise_cons.2 ⟨fun z hz => ?_, ih later⟩
        rcases mem_place.1 hz with rfl | hz
        · exact total nlt ne
        · exact first z hz

omit [DecidableLT α] [DecidableEq α] in
/-- Strictly ascending lists with the same members are equal. -/
theorem eq_of_mem_iff (asymm : ∀ {a b : α}, a < b → ¬ b < a) {l m : List α}
    (hl : l.Pairwise (· < ·)) (hm : m.Pairwise (· < ·)) (h : ∀ x, x ∈ l ↔ x ∈ m) : l = m := by
  induction l generalizing m with
  | nil =>
    cases m with
    | nil => rfl
    | cons b m => exact absurd ((h b).2 (List.mem_cons_self ..)) List.not_mem_nil
  | cons a l ih =>
    cases m with
    | nil => exact absurd ((h a).1 (List.mem_cons_self ..)) List.not_mem_nil
    | cons b m =>
      obtain ⟨hal, hl'⟩ := List.pairwise_cons.1 hl
      obtain ⟨hbm, hm'⟩ := List.pairwise_cons.1 hm
      have hab : a = b := by
        rcases List.mem_cons.1 ((h a).1 (List.mem_cons_self ..)) with e | ham
        · exact e
        · rcases List.mem_cons.1 ((h b).2 (List.mem_cons_self ..)) with e | hbl
          · exact e.symm
          · exact absurd (hal b hbl) (asymm (hbm a ham))
      subst hab
      congr 1
      refine ih hl' hm' fun x => ⟨fun hx => ?_, fun hx => ?_⟩
      · rcases List.mem_cons.1 ((h x).1 (List.mem_cons_of_mem _ hx)) with e | hx'
        · exact absurd (hal x hx) (e ▸ fun lt => asymm lt lt)
        · exact hx'
      · rcases List.mem_cons.1 ((h x).2 (List.mem_cons_of_mem _ hx)) with e | hx'
        · exact absurd (hbm x hx) (e ▸ fun lt => asymm lt lt)
        · exact hx'

end Activation.Ascending
