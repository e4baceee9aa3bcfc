-- SUMMARY: The walk places every node after all that precede it, unless there is a cycle.
import Activation.Proofs.StandsBefore
import Activation.Proofs.Walk.Invariant

/-!
# What the walk achieves

If no node precedes itself by a chain, the walk gives all nodes, each once, and
every node after all that precede it by a chain (`mem_of_walk`, `nodup_of_walk`,
`standsBefore_of_walk`). Otherwise it gives a back edge that closes a cycle
(`backEdge_of_walk`), so it succeeds exactly when there is no cycle
(`exists_walk_eq_ok_iff`).
-/

namespace Activation.Order.Walk

variable {n : Nat} {table : Precedence n}

/-! ## Founded lists -/

/-- What is placed stands above what it needs. -/
theorem Founded.direct {l : List (Fin n)} (h : Founded table l) {p x : Fin n} (hx : x ∈ l)
    (hp : Direct table p x) : StandsBefore l x p := by
  induction l with
  | nil => cases hx
  | cons y l ih =>
    obtain ⟨hy, h⟩ := h
    rcases List.mem_cons.1 hx with rfl | hx
    · exact StandsBefore.cons_iff.2 (.inl ⟨rfl, hy p hp⟩)
    · exact StandsBefore.cons_iff.2 (.inr (ih h hx))

/-- What is placed stands above all that leads to it, since no node is placed twice. -/
theorem Founded.leads {l : List (Fin n)} (h : Founded table l) (hnodup : l.Nodup) {p x : Fin n}
    (hx : x ∈ l) (hp : Leads table p x) : StandsBefore l x p := by
  induction hp using Relation.TransGen.head_induction_on with
  | single hp => exact h.direct hx hp
  | head hp _ ih => exact ih.trans hnodup (h.direct ih.mem_right hp)

/-- Whatever is needed by something placed is placed. -/
theorem Founded.mem_of_reaches {l : List (Fin n)} (h : Founded table l) {p x : Fin n}
    (hx : x ∈ l) (hp : Reaches table p x) : p ∈ l := by
  induction hp using Relation.ReflTransGen.head_induction_on with
  | refl => exact hx
  | head hp _ ih => exact (h.direct ih hp).mem_right

/-! ## The outcome of a walk -/

/-- In the end every root was visited, and every node is a root. -/
theorem Coherent.mem_placed {w : Walk n} (h : Coherent table w) (hroots : w.roots = [])
    (hstack : w.stack = []) (x : Fin n) : x ∈ w.placed := by
  have hmet : w.marks.get x ≠ .unvisited := h.met x (by simp [hroots])
  have hleft : w.marks.get x ≠ .inProgress := fun e => by
    simpa [nodes, hstack] using (h.inProgress_iff x).1 e
  refine (h.done_iff x).1 ?_
  cases mark : w.marks.get x with
  | unvisited => exact absurd mark hmet
  | inProgress => exact absurd mark hleft
  | done => rfl

/-- The state in which a walk ended well. -/
theorem exists_final {order : List (Fin n)} (h : walk table = .ok order) :
    ∃ w, Reached table w ∧ w.roots = [] ∧ w.stack = [] ∧ w.placed.reverse = order := by
  obtain ⟨w, reached, ⟨order', hstep, hwalk⟩ | ⟨e, -, hwalk⟩⟩ := exists_stop table
  · rw [h] at hwalk
    cases hwalk
    exact ⟨w, reached, step_eq_finished_iff.1 hstep⟩
  · rw [h] at hwalk
    cases hwalk

/-- The state in which a walk met a back edge. -/
theorem exists_final_of_error {e : BackEdge n} (h : walk table = .error e) :
    ∃ w, Reached table w ∧ ∃ rest below, w.stack = ⟨e.node, e.predecessor :: rest⟩ :: below ∧
      w.marks.get e.predecessor = .inProgress := by
  obtain ⟨w, reached, ⟨order, -, hwalk⟩ | ⟨e', hstep, hwalk⟩⟩ := exists_stop table
  · rw [h] at hwalk
    cases hwalk
  · rw [h] at hwalk
    cases hwalk
    exact ⟨w, reached, step_eq_cycle_iff.1 hstep⟩

theorem nodup_of_walk {order : List (Fin n)} (h : walk table = .ok order) : order.Nodup := by
  obtain ⟨w, reached, -, -, rfl⟩ := exists_final h
  exact List.nodup_reverse.2 reached.coherent.placed_nodup

theorem mem_of_walk {order : List (Fin n)} (h : walk table = .ok order) (x : Fin n) :
    x ∈ order := by
  obtain ⟨w, reached, hroots, hstack, rfl⟩ := exists_final h
  exact List.mem_reverse.2 (reached.coherent.mem_placed hroots hstack x)

/-- In the order that the walk gives, a node stands after all that lead to it. -/
theorem standsBefore_of_walk {order : List (Fin n)} (h : walk table = .ok order) {p x : Fin n}
    (hp : Leads table p x) : StandsBefore order p x := by
  obtain ⟨w, reached, hroots, hstack, rfl⟩ := exists_final h
  have hcoherent := reached.coherent
  exact StandsBefore.reverse_iff.2
    (hcoherent.founded.leads hcoherent.placed_nodup (hcoherent.mem_placed hroots hstack x) hp)

/-- The top of a stack reaches every node on it. -/
theorem Coherent.reaches_of_mem {w : Walk n} (h : Coherent table w) {f : Frame n}
    {below : List (Frame n)} (hstack : w.stack = f :: below) {x : Fin n} (hx : x ∈ w.nodes) :
    Reaches table f.node x := by
  have hstacked := h.stacked
  rw [hstack] at hstacked
  obtain ⟨seen, -, -, led⟩ := hstacked
  rw [nodes, hstack, List.map_cons] at hx
  cases List.mem_cons.1 hx with
  | inl heq =>
    rw [heq]
  | inr hbelow =>
    obtain ⟨g, hg, rfl⟩ := List.mem_map.1 hbelow
    exact (led.leads g hg).to_reflTransGen

/-- The back edge that stops a walk is a direct precedence, and its node reaches its
    predecessor. -/
theorem backEdge_of_walk {e : BackEdge n} (h : walk table = .error e) :
    Direct table e.predecessor e.node ∧ Reaches table e.node e.predecessor := by
  obtain ⟨w, reached, rest, below, hstack, mark⟩ := exists_final_of_error h
  have hcoherent := reached.coherent
  have hstacked := hcoherent.stacked
  rw [hstack] at hstacked
  obtain ⟨seen, listed, -, -⟩ := hstacked
  exact ⟨direct_of_listed listed,
    hcoherent.reaches_of_mem hstack ((hcoherent.inProgress_iff _).1 mark)⟩

/-- The walk succeeds exactly when no node leads to itself. -/
theorem exists_walk_eq_ok_iff : (∃ order, walk table = .ok order) ↔ ∀ x, ¬ Leads table x x := by
  constructor
  · rintro ⟨order, h⟩ x hx
    exact (standsBefore_of_walk h hx).ne (nodup_of_walk h) rfl
  · intro acyclic
    cases h : walk table with
    | ok order => exact ⟨order, rfl⟩
    | error e =>
      obtain ⟨hdirect, hreaches⟩ := backEdge_of_walk h
      exact absurd (Relation.TransGen.head' hdirect hreaches) (acyclic _)

end Activation.Order.Walk
