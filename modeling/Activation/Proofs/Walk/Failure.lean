-- SUMMARY: A walk fails below the first root to which a cycle leads.
import Activation.Proofs.Walk.Stability

/-!
# Where a walk fails

A node is afflicted when it lies on a cycle or a chain leads to it from one. Placed nodes are
not afflicted, since all that leads to them was placed before them. When the walk meets a back
edge, every root before the current one is placed, so the current root is the first afflicted
node; and both ends of the back edge reach it, because they lie on the stack above it.
-/

namespace Activation.Order.Walk

variable {n : Nat} {table : Precedence n}

/-- The node lies on a cycle, or a chain leads to it from one. -/
def Afflicted (table : Precedence n) (x : Fin n) : Prop :=
  ∃ c, Leads table c c ∧ Reaches table c x

/-- What is placed has all its predecessors placed before it, so no cycle is reached from it. -/
theorem Coherent.not_afflicted {w : Walk n} (h : Coherent table w) {x : Fin n}
    (placed : x ∈ w.placed) : ¬ Afflicted table x := by
  intro hafflicted
  obtain ⟨c, hcycle, hreaches⟩ := hafflicted
  have hc : c ∈ w.placed := h.founded.mem_of_reaches placed hreaches
  exact (h.founded.leads h.placed_nodup hc hcycle).ne h.placed_nodup rfl

/-- The current root was taken. -/
theorem Punctual.current_not_mem_roots {w : Walk n} (h : Punctual table w)
    (hcoherent : Coherent table w) {root : Fin n} (hroot : w.current = some root) :
    root ∉ w.roots := by
  have mark : w.marks.get root = .inProgress :=
    (hcoherent.inProgress_iff root).2 (List.mem_of_getLast? hroot)
  obtain ⟨z, hz, hreaches⟩ := h.needed root (by simp [mark])
  cases h.settled z hz with
  | inl placed =>
    have hdone := (hcoherent.done_iff root).2 (hcoherent.founded.mem_of_reaches placed hreaches)
    simp [mark] at hdone
  | inr hcurrent =>
    rw [hroot] at hcurrent
    cases hcurrent
    exact hz

/-- No node before the current root is afflicted. -/
theorem Punctual.not_afflicted_of_lt {w : Walk n} (h : Punctual table w)
    (hcoherent : Coherent table w) {root : Fin n} (hroot : w.current = some root) {x : Fin n}
    (hlt : x < root) : ¬ Afflicted table x := by
  have htaken : x ∉ w.roots := by
    intro hx
    have hroots := h.current_not_mem_roots hcoherent hroot
    exact lt_asymm hlt (lt_of_roots_suffix h.roots_suffix hroots hx)
  cases h.settled x htaken with
  | inl placed => exact hcoherent.not_afflicted placed
  | inr hcurrent =>
    rw [hroot] at hcurrent
    cases hcurrent
    exact absurd hlt (lt_irrefl _)

/-- Both ends of the back edge reach the first node that is afflicted. -/
theorem exists_root_of_walk {e : BackEdge n} (h : walk table = .error e) :
    ∃ root, Afflicted table root ∧ (∀ x < root, ¬ Afflicted table x) ∧
      Reaches table e.node root ∧ Reaches table e.predecessor root := by
  obtain ⟨hdirect, hreturns⟩ := backEdge_of_walk h
  obtain ⟨w, reached, rest, below, hstack, -⟩ := exists_final_of_error h
  have hcoherent := reached.coherent
  obtain ⟨root, hroot⟩ : ∃ root, w.current = some root := by
    simp [current, nodes, hstack, List.getLast?_cons]
  have hnode : Reaches table e.node root :=
    hcoherent.reaches_of_mem hstack (List.mem_of_getLast? hroot)
  have hcycle : Leads table e.node e.node := .tail' hreturns hdirect
  exact ⟨root, ⟨e.node, hcycle, hnode⟩,
    fun x hlt => reached.punctual.not_afflicted_of_lt hcoherent hroot hlt, hnode,
    .head hdirect hnode⟩

end Activation.Order.Walk
