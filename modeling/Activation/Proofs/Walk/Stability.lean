-- SUMMARY: The walk places nodes in the order of the roots that need them.
import Activation.Proofs.Walk.Placement
import Mathlib.Data.List.FinRange

/-!
# Stability of the walk

A node is pulled to a root when it is that root or leads to it. The walk takes its
roots in ascending order and, for each of them, places what the root needs and no
more. So of two placed nodes the earlier one is pulled to a root that is no larger
than any to which the later one is pulled (`pairwise_pulledNoLater_of_walk`).

The invariant behind it is `Punctual`: all roots taken are placed, except that the
last of them may lie at the bottom of the stack, and every node met is pulled to a
root taken.
-/

namespace Activation.Order.Walk

variable {n : Nat} {table : Precedence n}

/-- Whatever the second node is pulled to, the first is pulled to something no larger. -/
def PulledNoLater (table : Precedence n) (a b : Fin n) : Prop :=
  ∀ z, Reaches table b z → ∃ y ≤ z, Reaches table a y

/-- The root that the walk is busy with. -/
def current (w : Walk n) : Option (Fin n) := w.nodes.getLast?

structure Punctual (table : Precedence n) (w : Walk n) : Prop where
  roots_suffix : w.roots <:+ List.finRange n
  current_latest : ∀ b, w.current = some b → ∀ y, y ∉ w.roots → y ≤ b
  settled : ∀ z, z ∉ w.roots → z ∈ w.placed ∨ w.current = some z
  needed : ∀ x : Fin n, w.marks.get x ≠ .unvisited → ∃ z, z ∉ w.roots ∧ Reaches table x z
  timely : w.placed.Pairwise fun later earlier => PulledNoLater table earlier later

/-- Roots are taken in ascending order, so those taken are less than those left. -/
theorem lt_of_roots_suffix {roots : List (Fin n)} (hsuffix : roots <:+ List.finRange n)
    {y z : Fin n} (hy : y ∉ roots) (hz : z ∈ roots) : y < z := by
  obtain ⟨taken, htaken⟩ := hsuffix
  have hsorted := List.pairwise_lt_finRange n
  rw [← htaken, List.pairwise_append] at hsorted
  have hmem : y ∈ taken ++ roots := htaken ▸ List.mem_finRange y
  exact hsorted.2.2 y ((List.mem_append.1 hmem).resolve_right hy) z hz

namespace Punctual

theorem start : Punctual table (start n) where
  roots_suffix := List.suffix_rfl
  current_latest b hb := by cases hb
  settled z hz := absurd (List.mem_finRange z) hz
  needed x hx := absurd (mark_start x) hx
  timely := .nil

/-- A root that was met before is pulled by an earlier one. -/
theorem drop {root : Fin n} {roots marks placed}
    (h : Punctual table ⟨root :: roots, marks, placed, []⟩)
    (hcoherent : Coherent table ⟨root :: roots, marks, placed, []⟩)
    (met : marks.get root ≠ .unvisited) : Punctual table ⟨roots, marks, placed, []⟩ where
  roots_suffix := (List.suffix_cons root roots).trans h.roots_suffix
  current_latest b hb := by cases hb
  settled z hz := by
    rcases eq_or_notMem_cons root hz with rfl | hz
    · refine .inl ((hcoherent.done_iff z).1 ?_)
      cases mark : marks.get z with
      | unvisited => exact absurd mark met
      | inProgress => exact absurd ((hcoherent.inProgress_iff z).1 mark) List.not_mem_nil
      | done => rfl
    · exact h.settled z hz
  needed x hx := by
    obtain ⟨z, hz, hreach⟩ := h.needed x hx
    exact ⟨z, fun hz' => hz (List.mem_cons_of_mem _ hz'), hreach⟩
  timely := h.timely

/-- A new root is the least that is left, and nothing placed is pulled later. -/
theorem enter {root : Fin n} {roots marks placed}
    (h : Punctual table ⟨root :: roots, marks, placed, []⟩) :
    Punctual table
      ⟨roots, marks.set root .inProgress root.isLt, placed, [⟨root, table.get root⟩]⟩ where
  roots_suffix := (List.suffix_cons root roots).trans h.roots_suffix
  current_latest b hb y hy := by
    cases hb
    rcases eq_or_notMem_cons root hy with rfl | hy
    · exact le_refl _
    · exact (lt_of_roots_suffix h.roots_suffix hy List.mem_cons_self).le
  settled z hz := by
    rcases eq_or_notMem_cons root hz with rfl | hz
    · exact .inr rfl
    · exact .inl ((h.settled z hz).resolve_right (by simp [current, nodes]))
  needed x hx := by
    have hnodup := (List.nodup_finRange n).sublist h.roots_suffix.sublist
    rcases eq_or_of_set_mark_ne (by decide) hx with rfl | hx
    · exact ⟨root, (List.nodup_cons.1 hnodup).1, .refl⟩
    · obtain ⟨z, hz, hreach⟩ := h.needed x hx
      exact ⟨z, fun hz' => hz (List.mem_cons_of_mem _ hz'), hreach⟩
  timely := h.timely

/-- A node is placed under the root that pulls it, after everything that earlier roots pull. -/
theorem place {roots marks placed below} {node : Fin n}
    (h : Punctual table ⟨roots, marks, placed, ⟨node, []⟩ :: below⟩)
    (hcoherent : Coherent table ⟨roots, marks, placed, ⟨node, []⟩ :: below⟩) :
    Punctual table ⟨roots, marks.set node .done node.isLt, node :: placed, below⟩ where
  roots_suffix := h.roots_suffix
  current_latest b hb := h.current_latest b (by
    simp only [current, nodes, List.map_cons, List.getLast?_cons] at hb ⊢
    rw [hb, Option.getD_some])
  settled z hz := by
    rcases h.settled z hz with hplaced | hcurrent
    · exact .inl (List.mem_cons_of_mem _ hplaced)
    · simp only [current, nodes, List.map_cons, List.getLast?_cons] at hcurrent ⊢
      cases hbelow : (below.map (·.node)).getLast? with
      | none =>
        rw [hbelow] at hcurrent
        cases hcurrent
        exact .inl List.mem_cons_self
      | some b =>
        rw [hbelow] at hcurrent
        exact .inr hcurrent
  needed x hx := by
    rcases eq_or_of_set_mark_ne (by decide) hx with rfl | hx
    · exact h.needed node (by rw [hcoherent.mark_top]; decide)
    · exact h.needed x hx
  timely := by
    refine List.pairwise_cons.2 ⟨fun earlier hearlier z hz => ?_, h.timely⟩
    have hdone : marks.get earlier = .done := (hcoherent.done_iff earlier).2 hearlier
    obtain ⟨y, hy, hreach⟩ := h.needed earlier (by rw [hdone]; decide)
    refine ⟨y, ?_, hreach⟩
    by_cases hleft : z ∈ roots
    · exact (lt_of_roots_suffix h.roots_suffix hy hleft).le
    · rcases h.settled z hleft with hplaced | hcurrent
      · -- A placed root has all that it needs, so `node` would be placed already.
        have hnode : node ∈ placed := hcoherent.founded.mem_of_reaches hplaced hz
        exact absurd hnode hcoherent.top_not_placed
      · exact h.current_latest z hcurrent y hy

theorem pass {roots marks placed below rest} {node p : Fin n}
    (h : Punctual table ⟨roots, marks, placed, ⟨node, p :: rest⟩ :: below⟩) :
    Punctual table ⟨roots, marks, placed, ⟨node, rest⟩ :: below⟩ :=
  ⟨h.roots_suffix, h.current_latest, h.settled, h.needed, h.timely⟩

/-- What a frame descends to is pulled by the root of its stack. -/
theorem descend {roots marks placed below rest} {node p : Fin n}
    (h : Punctual table ⟨roots, marks, placed, ⟨node, p :: rest⟩ :: below⟩)
    (hcoherent : Coherent table ⟨roots, marks, placed, ⟨node, p :: rest⟩ :: below⟩) :
    Punctual table ⟨roots, marks.set p .inProgress p.isLt, placed,
      ⟨p, table.get p⟩ :: ⟨node, rest⟩ :: below⟩ where
  roots_suffix := h.roots_suffix
  current_latest := by
    simpa [current, nodes, List.getLast?_cons] using h.current_latest
  settled := by
    simpa [current, nodes, List.getLast?_cons] using h.settled
  needed x hx := by
    rcases eq_or_of_set_mark_ne (by decide) hx with rfl | hx
    · obtain ⟨seen, listed, -, -⟩ := hcoherent.stacked
      obtain ⟨z, hz, hreach⟩ := h.needed node (by rw [hcoherent.mark_top]; decide)
      exact ⟨z, hz, .head (direct_of_listed listed) hreach⟩
    · exact h.needed x hx
  timely := h.timely

/-- Every move keeps a walk punctual: one case for each move. -/
theorem goes {w w' : Walk n} (h : Punctual table w) (hcoherent : Coherent table w)
    (hgoes : Goes table w w') : Punctual table w' := by
  cases hgoes with
  | drop met => exact h.drop hcoherent met
  | enter fresh => exact h.enter
  | place => exact h.place hcoherent
  | pass done => exact h.pass
  | descend fresh => exact h.descend hcoherent

end Punctual

theorem Reached.punctual {w : Walk n} (h : Reached table w) : Punctual table w := by
  induction h with
  | start => exact Punctual.start
  | move reached hgoes ih => exact ih.goes reached.coherent hgoes

/-- Of two nodes in the order that the walk gives, the first is pulled no later. -/
theorem pairwise_pulledNoLater_of_walk {order : List (Fin n)} (h : walk table = .ok order) :
    order.Pairwise (PulledNoLater table) := by
  obtain ⟨w, reached, -, -, rfl⟩ := exists_final h
  exact List.pairwise_reverse.2 reached.punctual.timely

end Activation.Order.Walk
