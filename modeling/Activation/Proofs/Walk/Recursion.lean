-- SUMMARY: Depth-first placement as a recursion, and the walk as its refinement.
import Activation.Order
import Activation.Proofs.Walk.Moves

/-!
# The walk and the recursion it unrolls

`depthFirst` says by recursion what the walk does with a stack: to visit a node,
visit its predecessors one after the other, unless they are placed, and then place
the node. It fails at the first predecessor that is in progress. Termination goes by
the nodes not met yet: a visit carries a proof that it leaves no more of them than it
found (`Progress.Later`).

The walk agrees with the recursion, in what it places and in the conflict that stops it:
a frame on top of a stack is a call that still has to go through the rest of its
predecessor list (`run_frame_eq_visitEach`), whatever lies below it.
-/

namespace Activation.Order

variable {n : Nat}

/-- What a depth-first placement has done so far. -/
structure Progress (n : Nat) where
  marks : Vector Mark n
  /-- The nodes placed so far, in order. -/
  placed : List (Fin n)

namespace Progress

def unvisited (s : Progress n) : Nat := s.marks.count .unvisited

def initial (n : Nat) : Progress n := ⟨Vector.replicate n .unvisited, []⟩

def enter (s : Progress n) (x : Fin n) : Progress n :=
  { s with marks := s.marks.set x .inProgress x.isLt }

def place (s : Progress n) (x : Fin n) : Progress n := ⟨s.marks.set x .done x.isLt, s.placed ++ [x]⟩

/-- The progress that can be made from a state: it meets no node for a second time. -/
abbrev Later (s : Progress n) : Type := { t : Progress n // t.unvisited ≤ s.unvisited }

theorem unvisited_enter_lt {s : Progress n} {x : Fin n} (fresh : s.marks.get x = .unvisited) :
    (s.enter x).unvisited < s.unvisited :=
  Walk.count_unvisited_set_lt s.marks x (by decide) fresh

theorem unvisited_place_le (s : Progress n) (x : Fin n) : (s.place x).unvisited ≤ s.unvisited :=
  Walk.count_unvisited_set_le s.marks x (by decide)

end Progress

section Recursion

variable (names : Vector ModuleId n) (table : Precedence n)

mutual
/-- Visit a node that was not met yet. -/
def visit (x : Fin n) (s : Progress n) (fresh : s.marks.get x = .unvisited) :
    Except Conflict s.Later := do
  let ⟨t, ht⟩ ← visitEach x (table.get x) (s.enter x)
  return ⟨t.place x, Nat.le_trans (t.unvisited_place_le x)
    (Nat.le_trans ht (Nat.le_of_lt (Progress.unvisited_enter_lt fresh)))⟩
termination_by (s.unvisited, 0)
decreasing_by exact .left _ _ (Progress.unvisited_enter_lt fresh)

/-- Visit the predecessors of a node, in the order of a list. -/
def visitEach (x : Fin n) (predecessors : List (Fin n)) (s : Progress n) :
    Except Conflict s.Later :=
  match predecessors with
  | [] => return ⟨s, Nat.le_refl _⟩
  | p :: rest =>
    match mark : s.marks.get p with
    | .done => visitEach x rest s
    | .inProgress => throw ⟨names.get x, names.get p⟩
    | .unvisited => do
      let ⟨t, ht⟩ ← visit p s mark
      let ⟨u, hu⟩ ← visitEach x rest t
      return ⟨u, Nat.le_trans hu ht⟩
termination_by (s.unvisited, predecessors.length + 1)
decreasing_by
  · exact .right _ (by simp)
  · exact .right _ (by simp)
  · rcases Nat.lt_or_eq_of_le ht with h | h
    · exact .left _ _ h
    · rw [h]
      exact .right _ (by simp)
end

/-- Visit those nodes of a list that are not met before their turn. -/
def visitAll : List (Fin n) → Progress n → Except Conflict (Progress n)
  | [], s => return s
  | x :: rest, s =>
    if fresh : s.marks.get x = .unvisited then do
      let ⟨t, _⟩ ← visit names table x s fresh
      visitAll rest t
    else visitAll rest s

/-- All nodes, each after its predecessors, or the first conflict that is met. -/
def depthFirst : Except Conflict (List (Fin n)) := do
  let s ← visitAll names table (List.finRange n) (.initial n)
  return s.placed

/-! ## The recursion, case by case -/

variable {names table}

theorem visitEach_of_done {x p : Fin n} {rest : List (Fin n)} {s : Progress n}
    (mark : s.marks.get p = .done) :
    visitEach names table x (p :: rest) s = visitEach names table x rest s := by
  rw [visitEach]
  split <;> simp_all

/-- A predecessor in progress closes a cycle. -/
theorem visitEach_of_inProgress {x p : Fin n} {rest : List (Fin n)} {s : Progress n}
    (mark : s.marks.get p = .inProgress) :
    visitEach names table x (p :: rest) s = .error ⟨names.get x, names.get p⟩ := by
  rw [visitEach]
  split <;> simp_all [throw, throwThe, MonadExceptOf.throw]

/-- A predecessor that is unvisited is visited before the next one is looked at, whatever is done
    after. -/
theorem visitEach_of_unvisited {α : Type} {x p : Fin n} {rest : List (Fin n)} {s : Progress n}
    (mark : s.marks.get p = .unvisited) (k : Progress n → Except Conflict α) :
    (visitEach names table x (p :: rest) s >>= fun u => k u.1) =
      visit names table p s mark >>= fun t =>
        visitEach names table x rest t.1 >>= fun u => k u.1 := by
  rw [visitEach]
  split
  · simp_all
  · simp_all
  · simp only [bind_assoc, pure_bind]

end Recursion

/-! ## The walk does what the recursion does -/

def BackEdge.conflict (names : Vector ModuleId n) (e : BackEdge n) : Conflict :=
  ⟨names.get e.node, names.get e.predecessor⟩

/-- The walk that goes on from some progress. -/
def Progress.resume (s : Progress n) (roots : List (Fin n)) (stack : List (Frame n)) : Walk n :=
  ⟨roots, s.marks, s.placed.reverse, stack⟩

/-- How a walk ends, its back edge given by names. -/
def Walk.outcome (names : Vector ModuleId n) (table : Precedence n) (w : Walk n) :
    Except Conflict (List (Fin n)) :=
  (w.run table).mapError (BackEdge.conflict names)

variable {names : Vector ModuleId n} {table : Precedence n}

/-- A move of the stack is a step of the recursion, so it does not change the outcome. -/
theorem Walk.Goes.outcome_eq {w w' : Walk n} (h : Walk.Goes table w w') :
    w.outcome names table = w'.outcome names table := by
  unfold Walk.outcome
  rw [h.run_eq]

/-- A frame on top of a stack goes through the rest of its predecessors, and then its node is
    placed. -/
theorem run_frame_eq_visitEach (x : Fin n) (predecessors : List (Fin n)) (s : Progress n)
    (roots : List (Fin n)) (below : List (Frame n)) :
    (s.resume roots (⟨x, predecessors⟩ :: below)).outcome names table =
      visitEach names table x predecessors s >>= fun t =>
        ((t.1.place x).resume roots below).outcome names table := by
  -- The motive given here is the statement for `visit`, in which the frame is a new one.
  induction x, predecessors, s using visitEach.induct table
    (fun x s fresh => ∀ roots below,
      ((s.enter x).resume roots (⟨x, table.get x⟩ :: below)).outcome names table =
        visit names table x s fresh >>= fun t => (t.1.resume roots below).outcome names table)
    generalizing roots below with
  | case1 x s fresh ih =>
    rw [ih, visit, bind_assoc]
    rfl
  | case2 x s =>
    have hplace : Walk.Goes table (s.resume roots (⟨x, []⟩ :: below))
        ((s.place x).resume roots below) := by
      have hreverse : (s.placed ++ [x]).reverse = x :: s.placed.reverse := by simp
      simp only [Progress.resume, Progress.place, hreverse]
      exact .place
    rw [hplace.outcome_eq, visitEach, pure_bind]
  | case3 x s p rest mark ih =>
    have hpass : Walk.Goes table (s.resume roots (⟨x, p :: rest⟩ :: below))
        (s.resume roots (⟨x, rest⟩ :: below)) := .pass mark
    rw [hpass.outcome_eq, ih, visitEach_of_done mark]
  | case4 x s p rest mark =>
    have hstop : Walk.step table (s.resume roots (⟨x, p :: rest⟩ :: below)) = .cycle ⟨x, p⟩ :=
      Walk.step_eq_cycle_iff.2 ⟨rest, below, rfl, mark⟩
    rw [Walk.outcome, Walk.run_of_cycle hstop, visitEach_of_inProgress mark]
    rfl
  | case5 x s p rest mark ihp ihrest =>
    have hdescend : Walk.Goes table (s.resume roots (⟨x, p :: rest⟩ :: below))
        ((s.enter p).resume roots (⟨p, table.get p⟩ :: ⟨x, rest⟩ :: below)) := .descend mark
    rw [hdescend.outcome_eq, ihp, visitEach_of_unvisited mark
      (fun t => ((t.place x).resume roots below).outcome names table)]
    congr 1
    funext t
    exact ihrest t.1 t.2 roots below

/-- A walk with an empty stack goes through the roots that are left. -/
theorem run_roots_eq_visitAll (roots : List (Fin n)) (s : Progress n) :
    (s.resume roots []).outcome names table = (·.placed) <$> visitAll names table roots s := by
  induction roots generalizing s with
  | nil =>
    have hstop : Walk.step table (s.resume [] []) = .finished s.placed :=
      Walk.step_eq_finished_iff.2 ⟨rfl, rfl, List.reverse_reverse _⟩
    rw [Walk.outcome, Walk.run_of_finished hstop]
    rfl
  | cons x roots ih =>
    rw [visitAll]
    split
    · rename_i fresh
      have henter : Walk.Goes table (s.resume (x :: roots) [])
          ((s.enter x).resume roots [⟨x, table.get x⟩]) := .enter fresh
      rw [henter.outcome_eq, run_frame_eq_visitEach, visit]
      simp only [bind_assoc, pure_bind, map_bind]
      congr 1
      funext t
      exact ih (t.1.place x)
    · rename_i met
      have hdrop : Walk.Goes table (s.resume (x :: roots) []) (s.resume roots []) := .drop met
      rw [hdrop.outcome_eq, ih]

/-- The walk gives what the recursion gives: the same order, or the same conflict. This is also
    how modules are arranged, under their own names. -/
theorem walk_refines_depthFirst :
    (∀ {n : Nat} (names : Vector ModuleId n) (table : Precedence n),
      (walk table).mapError (BackEdge.conflict names) = depthFirst names table) ∧
    ∀ modules : List Declared,
      let placed := (baseline modules).toArray
      let names := placed.toVector.map (·.id)
      arrange modules =
        (depthFirst names (precedence placed)).map fun order => order.map names.get := by
  have hwalk : ∀ {n : Nat} (names : Vector ModuleId n) (table : Precedence n),
      (walk table).mapError (BackEdge.conflict names) = depthFirst names table := by
    intro n names table
    rw [depthFirst, bind_pure_comp]
    exact run_roots_eq_visitAll (List.finRange n) (.initial n)
  refine ⟨hwalk, ?_⟩
  intro modules placed names
  have hname : ∀ p : Fin placed.size, placed[p].id = names.get p := by
    intro p
    show placed.toVector[p.val].id = (placed.toVector.map (·.id))[p.val]
    rw [Vector.getElem_map]
  rw [← hwalk, arrange]
  cases walk (precedence placed) with
  | ok order => exact congrArg Except.ok (List.map_congr_left fun p _ => hname p)
  | error e =>
    have hconflict : (⟨placed[e.node].id, placed[e.predecessor].id⟩ : Conflict) =
        e.conflict names := by
      rw [BackEdge.conflict, hname, hname]
    exact congrArg Except.error hconflict

end Activation.Order
