-- SUMMARY: The moves of a walk as named rules, the states it passes through, and where it stops.
import Activation.Order.Walk

/-!
# Moves of the walk

`Walk.step` decides on the next move by a nested match. Here every move is a rule
of its own, and `step_eq_goOn_iff` says that the rules are all that `step` does.
An invariant of the walk is proved by one case for each rule, and holds of every
state the walk passes through (`Reached`). A walk stops at exactly one of them,
with an order or with a back edge (`exists_stop`).
-/

namespace Activation.Order.Walk

variable {n : Nat} {table : Precedence n}

/-- One move after which the walk goes on. -/
inductive Goes (table : Precedence n) : Walk n → Walk n → Prop
  /-- A root that was met before is dropped. -/
  | drop {root : Fin n} {roots marks placed} (met : marks.get root ≠ .unvisited) :
      Goes table ⟨root :: roots, marks, placed, []⟩ ⟨roots, marks, placed, []⟩
  /-- The walk starts from a new root. -/
  | enter {root : Fin n} {roots marks placed} (fresh : marks.get root = .unvisited) :
      Goes table ⟨root :: roots, marks, placed, []⟩
        ⟨roots, marks.set root .inProgress root.isLt, placed, [⟨root, table.get root⟩]⟩
  /-- The innermost node has no predecessors left and is placed. -/
  | place {node : Fin n} {roots marks placed below} :
      Goes table ⟨roots, marks, placed, ⟨node, []⟩ :: below⟩
        ⟨roots, marks.set node .done node.isLt, node :: placed, below⟩
  /-- A predecessor that is placed is passed over. -/
  | pass {node p : Fin n} {rest roots marks placed below} (done : marks.get p = .done) :
      Goes table ⟨roots, marks, placed, ⟨node, p :: rest⟩ :: below⟩
        ⟨roots, marks, placed, ⟨node, rest⟩ :: below⟩
  /-- A new predecessor is visited first. -/
  | descend {node p : Fin n} {rest roots marks placed below} (fresh : marks.get p = .unvisited) :
      Goes table ⟨roots, marks, placed, ⟨node, p :: rest⟩ :: below⟩
        ⟨roots, marks.set p .inProgress p.isLt, placed, ⟨p, table.get p⟩ :: ⟨node, rest⟩ :: below⟩

/-! ## What `step` does -/

theorem Goes.step_eq {w w' : Walk n} (h : Goes table w w') : step table w = .goOn w' := by
  cases h with
  | drop met => exact if_neg met
  | enter fresh => exact if_pos fresh
  | place => rw [step]
  | @pass _ p _ _ marks _ _ done =>
    have done : marks[p] = .done := done
    rw [step, done]
  | @descend _ p _ _ marks _ _ fresh =>
    have fresh : marks[p] = .unvisited := fresh
    rw [step, fresh]
    rfl

/-- A step goes on exactly by one of the moves. -/
theorem step_eq_goOn_iff {w w' : Walk n} : step table w = .goOn w' ↔ Goes table w w' := by
  refine ⟨fun h => ?_, Goes.step_eq⟩
  unfold step at h
  split at h
  · cases h
  · split at h
    · rename_i fresh
      cases h
      exact .enter fresh
    · rename_i met
      cases h
      exact .drop met
  · cases h
    exact .place
  · split at h
    · rename_i done
      cases h
      exact .pass done
    · cases h
    · rename_i fresh
      cases h
      exact .descend fresh

/-- A walk is finished when there are no roots and no frames left. -/
theorem step_eq_finished_iff {w : Walk n} {order : List (Fin n)} :
    step table w = .finished order ↔
      w.roots = [] ∧ w.stack = [] ∧ w.placed.reverse = order := by
  unfold step
  split
  · simp
  · split <;> simp
  · simp
  · split <;> simp

/-- A walk ends with a cycle when the frame on top reads a node that is in progress. -/
theorem step_eq_cycle_iff {w : Walk n} {e : BackEdge n} :
    step table w = .cycle e ↔
      ∃ rest below, w.stack = ⟨e.node, e.predecessor :: rest⟩ :: below ∧
        w.marks.get e.predecessor = .inProgress := by
  obtain ⟨first, second⟩ := e
  unfold step
  split
  · simp
  · split <;> simp
  · simp
  · rename_i roots marks placed node p rest below
    constructor
    · intro h
      split at h
      · cases h
      · rename_i mark
        cases h
        exact ⟨rest, below, rfl, mark⟩
      · cases h
    · rintro ⟨rest', below', hstack, mark⟩
      cases hstack
      have mark : marks[second] = .inProgress := mark
      dsimp only
      rw [mark]

/-! ## Runs -/

/-- A move does not change how the walk ends. -/
theorem Goes.run_eq {w w' : Walk n} (h : Goes table w w') : run table w = run table w' := by
  rw [run]
  split
  · rename_i w'' hstep
    rw [h.step_eq] at hstep
    cases hstep
    rfl
  · rename_i hstep
    rw [h.step_eq] at hstep
    cases hstep
  · rename_i hstep
    rw [h.step_eq] at hstep
    cases hstep

theorem run_of_finished {w : Walk n} {order : List (Fin n)} (h : step table w = .finished order) :
    run table w = .ok order := by
  rw [run]
  split <;> simp_all

theorem run_of_cycle {w : Walk n} {e : BackEdge n} (h : step table w = .cycle e) :
    run table w = .error e := by
  rw [run]
  split <;> simp_all

/-- The states that a walk passes through. -/
inductive Reached (table : Precedence n) : Walk n → Prop
  | start : Reached table (start n)
  | move {w w' : Walk n} (reached : Reached table w) (goes : Goes table w w') : Reached table w'

/-- A walk stops at one of its states. There it is out of moves, and the outcome is that of
    the whole walk. -/
theorem exists_stop (table : Precedence n) :
    ∃ w, Reached table w ∧
      ((∃ order, step table w = .finished order ∧ walk table = .ok order) ∨
        ∃ e, step table w = .cycle e ∧ walk table = .error e) := by
  suffices h : ∀ w, Reached table w → run table w = walk table → ∃ w, Reached table w ∧
      ((∃ order, step table w = .finished order ∧ walk table = .ok order) ∨
        ∃ e, step table w = .cycle e ∧ walk table = .error e) from
    h (start n) .start rfl
  intro w
  fun_induction run table w with
  | case1 w w' hstep ih =>
    intro reached hrun
    exact ih (.move reached (step_eq_goOn_iff.1 hstep)) hrun
  | case2 w order hstep =>
    intro reached hrun
    exact ⟨w, reached, .inl ⟨order, hstep, hrun.symm⟩⟩
  | case3 w e hstep =>
    intro reached hrun
    exact ⟨w, reached, .inr ⟨e, hstep, hrun.symm⟩⟩

end Activation.Order.Walk
