-- SUMMARY: A depth-first walk that places every node after its predecessors.
import Activation.Order.Precedence

/-!
# The walk

Nodes are placed depth first: the nodes are tried in ascending order, and before
a node is placed its predecessors are visited in the order of their list. A node
that is met again while it is still in progress closes a cycle.

The recursion is unrolled into a machine with an explicit stack. `step` makes one
move, and `Walk.run` repeats it until the walk is over. Each move visits a new
node, finishes one, consumes one entry of a predecessor list or drops a root, so
the number of unvisited nodes, the pending work and the number of roots left
decrease lexicographically, with or without cycles.
-/

namespace Activation.Order

/-- How far the walk is with a node. -/
inductive Mark
  | unvisited
  | inProgress
  | done
  deriving DecidableEq

/-- A node on the stack with the predecessors that were not looked at yet. -/
structure Frame (n : Nat) where
  node : Fin n
  /-- The rest of its predecessor list. -/
  rest : List (Fin n)
  deriving DecidableEq

/-- The state of a walk over `n` nodes. -/
structure Walk (n : Nat) where
  /-- The nodes from which the walk is still to be started, ascending. -/
  roots : List (Fin n)
  /-- How far the walk is with each node. -/
  marks : Vector Mark n
  /-- The nodes placed so far, the latest first. -/
  placed : List (Fin n)
  /-- The nodes in progress, the innermost first. -/
  stack : List (Frame n)

/-- A node met one of its predecessors while that was in progress. -/
structure BackEdge (n : Nat) where
  node : Fin n
  predecessor : Fin n
  deriving DecidableEq

/-- The outcome of one move. -/
inductive Move (n : Nat)
  | goOn (walk : Walk n)
  /-- Every node is placed, in this order. -/
  | finished (order : List (Fin n))
  | cycle (backEdge : BackEdge n)

namespace Walk

variable {n : Nat}

/-- The walk before its first move. -/
def start (n : Nat) : Walk n where
  roots := List.finRange n
  marks := Vector.replicate n .unvisited
  placed := []
  stack := []

def step (table : Precedence n) : Walk n → Move n
  | ⟨[], _, placed, []⟩ => .finished placed.reverse
  | ⟨root :: roots, marks, placed, []⟩ =>
    if marks[root] = .unvisited then
      .goOn ⟨roots, marks.set root .inProgress, placed, [⟨root, table[root]⟩]⟩
    else .goOn ⟨roots, marks, placed, []⟩
  | ⟨roots, marks, placed, ⟨node, []⟩ :: below⟩ =>
    .goOn ⟨roots, marks.set node .done, node :: placed, below⟩
  | ⟨roots, marks, placed, ⟨node, p :: rest⟩ :: below⟩ =>
    match marks[p] with
    | .done => .goOn ⟨roots, marks, placed, ⟨node, rest⟩ :: below⟩
    | .inProgress => .cycle ⟨node, p⟩
    | .unvisited =>
      .goOn ⟨roots, marks.set p .inProgress, placed, ⟨p, table[p]⟩ :: ⟨node, rest⟩ :: below⟩

/-! ## The walk ends -/

def unvisited (w : Walk n) : Nat :=
  w.marks.count .unvisited

/-- The moves left for the nodes on the stack, if no further node is met: one for each
    predecessor not looked at and one to place the node. -/
def pending (w : Walk n) : Nat :=
  w.stack.foldr (fun f moves => f.rest.length + 1 + moves) 0

theorem count_unvisited_set_le (marks : Vector Mark n) (i : Fin n) {m : Mark}
    (h : m ≠ .unvisited) : (marks.set i m).count .unvisited ≤ marks.count .unvisited := by
  rw [Vector.count_set, if_neg (mt beq_iff_eq.1 h)]
  exact Nat.sub_le _ _

theorem count_unvisited_set_lt (marks : Vector Mark n) (i : Fin n) {m : Mark}
    (h : m ≠ .unvisited) (hi : marks[i] = .unvisited) :
    (marks.set i m).count .unvisited < marks.count .unvisited := by
  have met : marks[i.val] = .unvisited := hi
  have pos : 0 < marks.count .unvisited :=
    Vector.count_pos_iff.2 (met ▸ Vector.getElem_mem i.isLt)
  rw [Vector.count_set, if_pos (beq_iff_eq.2 met), if_neg (mt beq_iff_eq.1 h)]
  omega

/-- Every move that does not end the walk makes it smaller. -/
theorem step_decreases {table : Precedence n} {w w' : Walk n} (h : step table w = .goOn w') :
    Prod.Lex (· < ·) (Prod.Lex (· < ·) (· < ·))
      (w'.unvisited, w'.pending, w'.roots.length) (w.unvisited, w.pending, w.roots.length) := by
  unfold step at h
  split at h
  · cases h
  · split at h
    · rename_i fresh
      cases h
      exact .left _ _ (count_unvisited_set_lt _ _ (by decide) fresh)
    · cases h
      exact .right _ (.right _ (Nat.lt_succ_self _))
  · cases h
    rename_i marks _ node below
    rcases Nat.lt_or_eq_of_le
      (count_unvisited_set_le marks node (show Mark.done ≠ .unvisited by decide)) with lt | eq
    · exact .left _ _ lt
    · simp only [unvisited, eq]
      exact .right _ (.left _ _ (by simp [pending]))
  · split at h
    · cases h
      exact .right _ (.left _ _ (by simp [pending]))
    · cases h
    · rename_i fresh
      cases h
      exact .left _ _ (count_unvisited_set_lt _ _ (by decide) fresh)

/-- Carry a walk to its end. -/
def run (table : Precedence n) (w : Walk n) : Except (BackEdge n) (List (Fin n)) :=
  match _h : step table w with
  | .goOn w' => run table w'
  | .finished order => .ok order
  | .cycle backEdge => .error backEdge
termination_by (w.unvisited, w.pending, w.roots.length)
decreasing_by exact step_decreases _h

end Walk

/-- All nodes in an order in which each stands after its predecessors, or the edge
    that closed a cycle. -/
def walk {n : Nat} (table : Precedence n) : Except (BackEdge n) (List (Fin n)) :=
  (Walk.start n).run table

end Activation.Order
