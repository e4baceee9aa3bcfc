-- SUMMARY: What holds of the stack, the marks and the placed nodes at every state of a walk.
import Activation.Proofs.Walk.Moves
import Mathlib.Logic.Relation

/-!
# The invariant of the walk

At every state the nodes on the stack are those in progress and the placed ones are
those that are done. Each node on the stack has looked at a first part of its
predecessors. They are placed, except that below the top the last of them is the
node above (`Stacked`, `LedTo`). So every placed node was placed after all of its
predecessors (`Founded`), and a chain of precedences leads from each node on the
stack to every node below it.
-/

namespace Activation.Order

variable {n : Nat} {table : Precedence n}

theorem get_set {α : Type} {v : Vector α n} {i x : Fin n} {a : α} :
    (v.set i a i.isLt).get x = if i = x then a else v.get x := by
  simp only [Fin.ext_iff]
  exact Vector.getElem_set i.isLt x.isLt

theorem get_replicate {α : Type} {x : Fin n} {a : α} : (Vector.replicate n a).get x = a :=
  Vector.getElem_replicate x.isLt

/-- The first node comes directly before the second. -/
def Direct (table : Precedence n) (p x : Fin n) : Prop := p ∈ table.get x

/-- A chain of direct precedences leads from the first node to the second. -/
abbrev Leads (table : Precedence n) : Fin n → Fin n → Prop := Relation.TransGen (Direct table)

/-- As `Leads`, or the nodes are the same. -/
abbrev Reaches (table : Precedence n) : Fin n → Fin n → Prop := Relation.ReflTransGen (Direct table)

namespace Walk

/-- Every node of a list has all its predecessors after it. -/
def Founded (table : Precedence n) : List (Fin n) → Prop
  | [] => True
  | x :: earlier => (∀ p, Direct table p x → p ∈ earlier) ∧ Founded table earlier

/-- The frames below a node led to it: the first of them has come to the node in its
    predecessor list, all before that is placed, and the frames below led to that frame. -/
inductive LedTo (table : Precedence n) (placed : List (Fin n)) : Fin n → List (Frame n) → Prop
  | root {node : Fin n} : LedTo table placed node []
  | frame {node : Fin n} {f : Frame n} {below : List (Frame n)} {seen : List (Fin n)}
      (listed : table.get f.node = seen ++ node :: f.rest) (settled : ∀ p ∈ seen, p ∈ placed)
      (led : LedTo table placed f.node below) : LedTo table placed node (f :: below)

/-- On top of a stack, all predecessors looked at are placed. -/
def Stacked (table : Precedence n) (placed : List (Fin n)) : List (Frame n) → Prop
  | [] => True
  | f :: below => ∃ seen, table.get f.node = seen ++ f.rest ∧ (∀ p ∈ seen, p ∈ placed) ∧
      LedTo table placed f.node below

/-- The nodes on the stack, the innermost first. -/
def nodes (w : Walk n) : List (Fin n) := w.stack.map (·.node)

/-- The invariant of a walk. -/
structure Coherent (table : Precedence n) (w : Walk n) : Prop where
  inProgress_iff : ∀ x : Fin n, w.marks.get x = .inProgress ↔ x ∈ w.nodes
  done_iff : ∀ x : Fin n, w.marks.get x = .done ↔ x ∈ w.placed
  met : ∀ x : Fin n, x ∉ w.roots → w.marks.get x ≠ .unvisited
  nodes_nodup : w.nodes.Nodup
  placed_nodup : w.placed.Nodup
  founded : Founded table w.placed
  stacked : Stacked table w.placed w.stack

/-! ## Frames -/

theorem LedTo.mono {placed placed' : List (Fin n)} {node : Fin n} {below : List (Frame n)}
    (hsub : ∀ x ∈ placed, x ∈ placed') (h : LedTo table placed node below) :
    LedTo table placed' node below := by
  induction h with
  | root => exact .root
  | frame listed settled _ ih => exact .frame listed (fun p hp => hsub p (settled p hp)) ih

/-- When the top is placed, all that the frame below looked at is placed. -/
theorem LedTo.stacked {placed : List (Fin n)} {node : Fin n} {below : List (Frame n)}
    (h : LedTo table placed node below) : Stacked table (node :: placed) below := by
  cases h with
  | root => trivial
  | @frame _ f below seen listed settled led =>
    have hseen : ∀ p ∈ seen ++ [node], p ∈ node :: placed := by
      intro p hp
      rcases List.mem_append.1 hp with hp | hp
      · exact List.mem_cons_of_mem _ (settled p hp)
      · exact List.mem_singleton.1 hp ▸ List.mem_cons_self
    refine ⟨seen ++ [node], ?_, hseen, ?_⟩
    · rw [listed, List.append_cons]
    · exact led.mono fun _ hx => List.mem_cons_of_mem _ hx

/-- What a frame still has to read are predecessors of its node. -/
theorem direct_of_listed {x p : Fin n} {seen rest : List (Fin n)}
    (listed : table.get x = seen ++ p :: rest) : Direct table p x := by
  unfold Direct
  rw [listed]
  exact List.mem_append_right _ List.mem_cons_self

/-- A node precedes, by a chain, every node whose frame lies below it. -/
theorem LedTo.leads {placed : List (Fin n)} {node : Fin n} {below : List (Frame n)}
    (h : LedTo table placed node below) : ∀ f ∈ below, Leads table node f.node := by
  induction h with
  | root => exact fun _ hf => absurd hf List.not_mem_nil
  | @frame node f below seen listed _ _ ih =>
    have hdirect : Direct table node f.node := direct_of_listed listed
    intro g hg
    rcases List.mem_cons.1 hg with rfl | hg
    · exact .single hdirect
    · exact .head hdirect (ih g hg)

/-! ## Marks -/

section Marks

variable {marks : Vector Mark n} {i x : Fin n} {m m' : Mark}

theorem mark_start (x : Fin n) : (start n).marks.get x = .unvisited :=
  get_replicate

theorem set_mark_eq_self_iff : (marks.set i m i.isLt).get x = m ↔ i = x ∨ marks.get x = m := by
  rw [get_set]
  split
  · simp [*]
  · simp [*]

theorem set_mark_eq_iff (h : m ≠ m') :
    (marks.set i m i.isLt).get x = m' ↔ i ≠ x ∧ marks.get x = m' := by
  rw [get_set]
  split
  · simp [*]
  · simp [*]

theorem eq_or_of_set_mark_ne (h : m ≠ m') (hx : (marks.set i m i.isLt).get x ≠ m') :
    i = x ∨ marks.get x ≠ m' := by
  rcases Decidable.em (i = x) with e | hne
  · exact .inl e
  · exact .inr fun hmark => hx ((set_mark_eq_iff h).2 ⟨hne, hmark⟩)

theorem eq_or_notMem_cons (root : Fin n) {roots : List (Fin n)} (h : x ∉ roots) :
    x = root ∨ x ∉ root :: roots := by
  rw [List.mem_cons, not_or]
  exact (Decidable.em (x = root)).imp_right fun hne => ⟨hne, h⟩

end Marks

/-! ## Every move keeps the invariant -/

namespace Coherent

/-- Before the first move nothing is marked, placed or on the stack. -/
theorem start : Coherent table (start n) where
  inProgress_iff x := by
    rw [mark_start]
    simp [Walk.start, nodes]
  done_iff x := by
    rw [mark_start]
    simp [Walk.start]
  met x hx := absurd (List.mem_finRange x) hx
  nodes_nodup := .nil
  placed_nodup := .nil
  founded := trivial
  stacked := trivial

theorem mark_top {roots marks placed rest below} {node : Fin n}
    (h : Coherent table ⟨roots, marks, placed, ⟨node, rest⟩ :: below⟩) :
    marks.get node = .inProgress :=
  (h.inProgress_iff node).2 List.mem_cons_self

theorem top_not_placed {roots marks placed rest below} {node : Fin n}
    (h : Coherent table ⟨roots, marks, placed, ⟨node, rest⟩ :: below⟩) : node ∉ placed := by
  intro hplaced
  have hdone : marks.get node = .done := (h.done_iff node).2 hplaced
  rw [h.mark_top] at hdone
  cases hdone

/-- A root that was met before is dropped from the list, and nothing else changes. -/
theorem drop {root : Fin n} {roots marks placed}
    (h : Coherent table ⟨root :: roots, marks, placed, []⟩) (met : marks.get root ≠ .unvisited) :
    Coherent table ⟨roots, marks, placed, []⟩ where
  inProgress_iff := h.inProgress_iff
  done_iff := h.done_iff
  met x hx := by
    rcases eq_or_notMem_cons root hx with rfl | hx
    · exact met
    · exact h.met x hx
  nodes_nodup := h.nodes_nodup
  placed_nodup := h.placed_nodup
  founded := h.founded
  stacked := h.stacked

/-- Visiting a new node keeps the invariant, from whatever frames led to the node. -/
theorem visit {roots roots' marks placed} {stack stack' : List (Frame n)} {p : Fin n}
    (h : Coherent table ⟨roots, marks, placed, stack⟩) (fresh : marks.get p = .unvisited)
    (hroots : ∀ x, x ∉ roots' → x = p ∨ x ∉ roots)
    (hnodes : stack'.map (·.node) = stack.map (·.node)) (led : LedTo table placed p stack') :
    Coherent table
      ⟨roots', marks.set p .inProgress p.isLt, placed, ⟨p, table.get p⟩ :: stack'⟩ where
  inProgress_iff x := by
    rw [set_mark_eq_self_iff, nodes, List.map_cons, List.mem_cons, hnodes, eq_comm]
    exact or_congr_right (h.inProgress_iff x)
  done_iff x := by
    rw [set_mark_eq_iff (by decide), ← h.done_iff x, and_iff_right_iff_imp]
    rintro hdone rfl
    rw [fresh] at hdone
    cases hdone
  met x hx := by
    intro hmark
    obtain ⟨hne, hmark⟩ := (set_mark_eq_iff (by decide)).1 hmark
    exact h.met x ((hroots x hx).resolve_left hne.symm) hmark
  nodes_nodup := by
    have hp : p ∉ stack.map (·.node) := fun hp => by
      simp [(h.inProgress_iff p).2 hp] at fresh
    simp only [nodes, List.map_cons, hnodes]
    exact List.nodup_cons.2 ⟨hp, h.nodes_nodup⟩
  placed_nodup := h.placed_nodup
  founded := h.founded
  stacked := ⟨[], rfl, fun _ hp => absurd hp List.not_mem_nil, led⟩

/-- A node is placed when its frame has nothing left to read, so all its predecessors are placed. -/
theorem place {roots marks placed below} {node : Fin n}
    (h : Coherent table ⟨roots, marks, placed, ⟨node, []⟩ :: below⟩) :
    Coherent table ⟨roots, marks.set node .done node.isLt, node :: placed, below⟩ := by
  obtain ⟨hbelow, hnodup⟩ := List.nodup_cons.1 h.nodes_nodup
  obtain ⟨seen, listed, settled, led⟩ := h.stacked
  refine
    { inProgress_iff := fun x => ?inProgress
      done_iff := fun x => ?done
      met := fun x hx => ?met
      nodes_nodup := hnodup
      placed_nodup := List.nodup_cons.2 ⟨h.top_not_placed, h.placed_nodup⟩
      founded := ⟨fun p hp => ?founded, h.founded⟩
      stacked := led.stacked }
  case inProgress =>
    rw [set_mark_eq_iff (by decide)]
    constructor
    · rintro ⟨hne, hmark⟩
      exact (List.mem_cons.1 ((h.inProgress_iff x).1 hmark)).resolve_left hne.symm
    · intro hx
      refine ⟨?_, (h.inProgress_iff x).2 (List.mem_cons_of_mem _ hx)⟩
      rintro rfl
      exact hbelow hx
  case done =>
    rw [set_mark_eq_self_iff, List.mem_cons, eq_comm]
    exact or_congr_right (h.done_iff x)
  case met =>
    intro hmark
    exact h.met x hx ((set_mark_eq_iff (by decide)).1 hmark).2
  case founded =>
    -- No predecessor of the node is left, so all of them were looked at.
    unfold Direct at hp
    rw [listed, List.append_nil] at hp
    exact settled p hp

/-- A predecessor that is done is placed already, and its successor may go on. -/
theorem pass {roots marks placed below rest} {node p : Fin n}
    (h : Coherent table ⟨roots, marks, placed, ⟨node, p :: rest⟩ :: below⟩)
    (done : marks.get p = .done) :
    Coherent table ⟨roots, marks, placed, ⟨node, rest⟩ :: below⟩ := by
  obtain ⟨seen, listed, settled, led⟩ := h.stacked
  have hseen : ∀ q ∈ seen ++ [p], q ∈ placed := by
    intro q hq
    rcases List.mem_append.1 hq with hq | hq
    · exact settled q hq
    · exact (h.done_iff q).1 (List.mem_singleton.1 hq ▸ done)
  exact ⟨h.inProgress_iff, h.done_iff, h.met, h.nodes_nodup, h.placed_nodup, h.founded,
    seen ++ [p], by rw [listed, List.append_cons], hseen, led⟩

/-- Every move keeps a walk coherent: one case for each move. -/
theorem goes {w w' : Walk n} (h : Coherent table w) (hgoes : Goes table w w') :
    Coherent table w' := by
  cases hgoes with
  | drop met => exact h.drop met
  | @enter root roots marks placed fresh =>
    exact h.visit fresh (fun x hx => eq_or_notMem_cons root hx) rfl .root
  | place => exact h.place
  | pass done => exact h.pass done
  | descend fresh =>
    obtain ⟨seen, listed, settled, led⟩ := h.stacked
    exact h.visit fresh (fun x hx => .inr hx) rfl (.frame listed settled led)

end Coherent

theorem Reached.coherent {w : Walk n} (h : Reached table w) : Coherent table w := by
  induction h with
  | start => exact Coherent.start
  | move _ hgoes ih => exact ih.goes hgoes

end Walk

end Activation.Order
