-- SUMMARY: What a walk has looked at in each of its states, and how much it does in all.
import Activation.Proofs.Walk.Placement
import Mathlib.Data.Fintype.Card

/-!
# The work of a walk

What the invariant says of the stack is said here by positions in predecessor lists (`Sound`).
And a walk does little: it pushes and pops every node at most once, and it reads every entry
of a predecessor list at most once. A state of the walk tells which of these deeds are done
(`Settled`): each move adds what it does (`Goes.settled_iff`), and that was not done before
(`Coherent.not_settled`). Every move that finds a frame on the stack pops a node or reads an
entry, so there are no more of them than there are nodes and entries (`Passes.steps_le`).
-/

namespace Activation.Order

variable {n : Nat} {table : Precedence n}

/-- How many predecessors the node of a frame has looked at. -/
def Frame.next (table : Precedence n) (f : Frame n) : Nat :=
  (table.get f.node).length - f.rest.length

/-- The number of entries of all predecessor lists. -/
def entries (table : Precedence n) : Nat := ((List.finRange n).flatMap table.get).length

/-- What a walk does with nodes and with entries of predecessor lists. -/
inductive Deed (n : Nat)
  | push (node : Fin n)
  /-- The entry at a position of the predecessor list of a node is looked at. -/
  | read (node : Fin n) (position : Nat)
  | pop (node : Fin n)
  deriving DecidableEq

namespace Deed

def isPush : Deed n → Bool
  | push _ => true
  | _ => false

def isRead : Deed n → Bool
  | read _ _ => true
  | _ => false

def isPop : Deed n → Bool
  | pop _ => true
  | _ => false

end Deed

namespace Walk

/-! ## Frames and their predecessors -/

/-- The lower of two frames looked last at the node of the upper one, and all that it looked at
    before is done. -/
def LedBy (table : Precedence n) (marks : Vector Mark n) (upper lower : Frame n) : Prop :=
  ∃ seen, lower.next table = seen + 1 ∧ (table.get lower.node)[seen]? = some upper.node ∧
    ∀ p ∈ (table.get lower.node).take seen, marks.get p = .done

/-- What holds at every state of a walk. -/
structure Sound (table : Precedence n) (w : Walk n) : Prop where
  nodes_nodup : w.nodes.Nodup
  inProgress_iff : ∀ x : Fin n, w.marks.get x = .inProgress ↔ x ∈ w.nodes
  placed_nodup : w.placed.Nodup
  done_iff : ∀ x : Fin n, w.marks.get x = .done ↔ x ∈ w.placed
  earlier : ∀ x ∈ w.placed, ∀ p ∈ table.get x, StandsBefore w.placed.reverse p x
  next_le : ∀ f ∈ w.stack, f.next table ≤ (table.get f.node).length ∧
    f.rest = (table.get f.node).drop (f.next table)
  top : ∀ f ∈ w.stack.head?, ∀ p ∈ (table.get f.node).take (f.next table),
    w.marks.get p = .done
  led : w.stack.IsChain (LedBy table w.marks)

theorem next_of_listed {f : Frame n} {seen : List (Fin n)} (h : table.get f.node = seen ++ f.rest) :
    f.next table = seen.length := by
  simp only [Frame.next, h, List.length_append, Nat.add_sub_cancel]

/-- The rest of a frame is the end of its row. -/
theorem LedTo.listed {placed : List (Fin n)} {node : Fin n} {below : List (Frame n)}
    (h : LedTo table placed node below) :
    ∀ f ∈ below, ∃ seen, table.get f.node = seen ++ f.rest := by
  induction h with
  | root => exact fun _ hf => absurd hf List.not_mem_nil
  | @frame node f below seen listed _ _ ih =>
    intro g hg
    cases List.mem_cons.1 hg with
    | inl heq =>
      exact ⟨seen ++ [node], by
        simp only [heq, listed, List.append_assoc, List.singleton_append]⟩
    | inr hmem => exact ih g hmem

/-- The predecessors that a frame looked at and the rest of them are all predecessors of its
    node. -/
theorem Coherent.listed {w : Walk n} (h : Coherent table w) :
    ∀ f ∈ w.stack, ∃ seen, table.get f.node = seen ++ f.rest := by
  have hstacked := h.stacked
  intro f hf
  cases hstack : w.stack with
  | nil => simp [hstack] at hf
  | cons top below =>
    simp only [hstack, Stacked] at hstacked
    obtain ⟨seen, listed, -, led⟩ := hstacked
    simp only [hstack] at hf
    cases List.mem_cons.1 hf with
    | inl heq => exact ⟨seen, heq ▸ listed⟩
    | inr hmem => exact led.listed f hmem

/-- Each frame was entered from the entry that the frame below read last. -/
theorem LedTo.isChain {placed : List (Fin n)} {marks : Vector Mark n} {f : Frame n}
    {below : List (Frame n)} (h : LedTo table placed f.node below)
    (done : ∀ p ∈ placed, marks.get p = .done) : (f :: below).IsChain (LedBy table marks) := by
  generalize hnode : f.node = node at h
  induction h generalizing f with
  | root => exact .singleton f
  | @frame node g below seen listed settled _ ih =>
    refine List.isChain_cons_cons.2
      ⟨⟨seen.length, ?_, ?_, fun p hp => done p (settled p ?_)⟩, ih rfl⟩
    · have hlisted : table.get g.node = (seen ++ [node]) ++ g.rest := by
        simp only [listed, List.append_assoc, List.singleton_append]
      simp only [next_of_listed hlisted, List.length_append, List.length_singleton]
    · simp only [listed, List.getElem?_append_right, Nat.le_refl, Nat.sub_self,
        List.getElem?_cons_zero, hnode]
    · simpa only [listed, List.take_left] using hp

/-- The invariant that carries the proofs implies the one that speaks of positions. -/
theorem Coherent.sound {w : Walk n} (h : Coherent table w) : Sound table w where
  nodes_nodup := h.nodes_nodup
  inProgress_iff := h.inProgress_iff
  placed_nodup := h.placed_nodup
  done_iff := h.done_iff
  earlier x hx p hp := StandsBefore.reverse_iff.2 (h.founded.direct hx hp)
  next_le f hf := by
    obtain ⟨seen, listed⟩ := h.listed f hf
    simp only [next_of_listed listed, listed, List.drop_left, List.length_append,
      Nat.le_add_right, and_self]
  top f hf p hp := by
    have hstacked := h.stacked
    obtain ⟨below, hstack⟩ := List.head?_eq_some_iff.1 hf
    simp only [hstack, Stacked] at hstacked
    obtain ⟨seen, listed, settled, -⟩ := hstacked
    simp only [next_of_listed listed, listed, List.take_left] at hp
    exact (h.done_iff p).2 (settled p hp)
  led := by
    have hstacked := h.stacked
    cases hstack : w.stack with
    | nil => exact .nil
    | cons f below =>
      simp only [hstack, Stacked] at hstacked
      obtain ⟨-, -, -, led⟩ := hstacked
      exact led.isChain fun p hp => (h.done_iff p).2 hp

theorem Sound.length_stack_le {w : Walk n} (h : Sound table w) : w.stack.length ≤ n := by
  have hlength := List.Nodup.length_le_card h.nodes_nodup
  simpa only [nodes, List.length_map, Fintype.card_fin] using hlength

/-! ## Deeds -/

/-- What the next move does, in order. -/
def deeds (table : Precedence n) (w : Walk n) : List (Deed n) :=
  match w.stack, w.roots with
  | [], [] => []
  | [], root :: _ => if w.marks.get root = .unvisited then [.push root] else []
  | ⟨node, []⟩ :: _, _ => [.pop node]
  | ⟨node, p :: rest⟩ :: _, _ =>
    .read node (Frame.next table ⟨node, p :: rest⟩) ::
      if w.marks.get p = .unvisited then [.push p] else []

/-- The next move does something. -/
inductive Does (table : Precedence n) : Walk n → Deed n → Prop
  | enter {root : Fin n} {roots marks placed} (fresh : marks.get root = .unvisited) :
      Does table ⟨root :: roots, marks, placed, []⟩ (.push root)
  | pop {node : Fin n} {roots marks placed below} :
      Does table ⟨roots, marks, placed, ⟨node, []⟩ :: below⟩ (.pop node)
  | read {node p : Fin n} {rest roots marks placed below} :
      Does table ⟨roots, marks, placed, ⟨node, p :: rest⟩ :: below⟩
        (.read node (Frame.next table ⟨node, p :: rest⟩))
  | descend {node p : Fin n} {rest roots marks placed below} (fresh : marks.get p = .unvisited) :
      Does table ⟨roots, marks, placed, ⟨node, p :: rest⟩ :: below⟩ (.push p)

/-- The deeds of a state are listed and said to be done by the same states. -/
theorem mem_deeds_iff {w : Walk n} {d : Deed n} : d ∈ w.deeds table ↔ Does table w d := by
  constructor
  · intro h
    match w with
    | ⟨[], _, _, []⟩ => cases h
    | ⟨root :: _, _, _, []⟩ =>
      simp only [deeds] at h
      split at h
      case isTrue fresh => exact List.mem_singleton.1 h ▸ .enter fresh
      case isFalse => cases h
    | ⟨_, _, _, ⟨node, []⟩ :: _⟩ => exact List.mem_singleton.1 h ▸ .pop
    | ⟨_, _, _, ⟨node, p :: rest⟩ :: _⟩ =>
      cases List.mem_cons.1 h with
      | inl hread => exact hread ▸ .read
      | inr hpush =>
        split at hpush
        case isTrue fresh => exact List.mem_singleton.1 hpush ▸ .descend fresh
        case isFalse => cases hpush
  · intro h
    cases h with
    | enter fresh => simp only [deeds, fresh, if_true, List.mem_singleton]
    | pop => exact List.mem_singleton_self _
    | read => exact List.mem_cons_self
    | descend fresh => simp [deeds, fresh]

/-- What a walk has done. -/
def Settled (table : Precedence n) (w : Walk n) : Deed n → Prop
  | .push x => x ∈ w.placed ∨ x ∈ w.nodes
  | .read x i => x ∈ w.placed ∧ i < (table.get x).length ∨
      ∃ f ∈ w.stack, f.node = x ∧ i < f.next table
  | .pop x => x ∈ w.placed

theorem not_settled_start (d : Deed n) : ¬ Settled table (start n) d := by
  cases d with
  | push x => simp [Settled, Walk.start, nodes]
  | read x i => simp [Settled, Walk.start]
  | pop x => simp [Settled, Walk.start]

theorem next_of_visit (x : Fin n) : Frame.next table ⟨x, table.get x⟩ = 0 := by
  simp only [Frame.next, Nat.sub_self]

theorem next_of_place (x : Fin n) : Frame.next table ⟨x, []⟩ = (table.get x).length := by
  simp only [Frame.next, List.length_nil, Nat.sub_zero]

theorem Coherent.next_of_read {roots marks placed rest below} {node p : Fin n}
    (h : Coherent table ⟨roots, marks, placed, ⟨node, p :: rest⟩ :: below⟩) :
    Frame.next table ⟨node, rest⟩ = Frame.next table ⟨node, p :: rest⟩ + 1 := by
  obtain ⟨seen, listed⟩ := h.listed _ List.mem_cons_self
  simp only [Frame.next, listed, List.length_append, List.length_cons]
  omega

/-- After a move that is done which was done before it, and what the move does. -/
theorem Goes.settled_iff {w w' : Walk n} (h : Goes table w w') (hcoherent : Coherent table w)
    (d : Deed n) : Settled table w' d ↔ Settled table w d ∨ d ∈ w.deeds table := by
  cases h with
  | drop met =>
    simp only [deeds, met, if_false, List.not_mem_nil, or_false]
    cases d <;> rfl
  | enter fresh =>
    simp only [deeds, fresh, if_true, List.mem_singleton]
    cases d with
    | push x => simp [Settled, nodes]
    | read x i => simp [Settled, next_of_visit]
    | pop x => simp [Settled]
  | place =>
    simp only [deeds, List.mem_singleton]
    cases d with
    | push x =>
      simp only [Settled, nodes, List.map_cons, List.mem_cons, reduceCtorEq, or_false]
      exact or_assoc.trans or_left_comm
    | read x i =>
      simp only [Settled, List.exists_mem_cons_iff, next_of_place, reduceCtorEq, or_false]
      grind
    | pop x =>
      simp only [Settled, List.mem_cons, Deed.pop.injEq, or_comm]
  | @pass node p rest roots marks placed below done =>
    have hmet : marks.get p ≠ .unvisited := by simp [done]
    simp only [deeds, hmet, if_false, List.mem_singleton]
    cases d with
    | push x => simp [Settled, nodes]
    | read x i =>
      simp only [Settled, List.exists_mem_cons_iff, hcoherent.next_of_read, Deed.read.injEq,
        Nat.lt_succ_iff_lt_or_eq]
      grind
    | pop x => simp [Settled]
  | descend fresh =>
    simp only [deeds, fresh, if_true, List.mem_cons, List.not_mem_nil, or_false]
    cases d with
    | push x =>
      simp only [Settled, nodes, List.map_cons, List.mem_cons, reduceCtorEq, Deed.push.injEq,
        false_or]
      grind
    | read x i =>
      simp only [Settled, List.exists_mem_cons_iff, hcoherent.next_of_read, next_of_visit,
        Deed.read.injEq, Nat.lt_succ_iff_lt_or_eq, reduceCtorEq, Nat.not_lt_zero]
      grind
    | pop x => simp [Settled]

theorem Coherent.not_settled_push {w : Walk n} (h : Coherent table w) {x : Fin n}
    (fresh : w.marks.get x = .unvisited) : ¬ Settled table w (.push x) := by
  intro hsettled
  cases hsettled with
  | inl placed => simp [(h.done_iff x).2 placed] at fresh
  | inr node => simp [(h.inProgress_iff x).2 node] at fresh

/-- No move does anything for a second time. -/
theorem Coherent.not_settled {w : Walk n} (h : Coherent table w) {d : Deed n}
    (does : Does table w d) : ¬ Settled table w d := by
  cases does with
  | enter fresh => exact h.not_settled_push fresh
  | pop => exact h.top_not_placed
  | read =>
    intro hsettled
    cases hsettled with
    | inl hplaced => exact h.top_not_placed hplaced.1
    | inr hframe =>
      -- Only the top frame is that of its node.
      obtain ⟨f, hf, hnode, hlt⟩ := hframe
      cases List.mem_cons.1 hf with
      | inl htop => exact Nat.lt_irrefl _ (htop ▸ hlt)
      | inr hbelow =>
        exact (List.nodup_cons.1 h.nodes_nodup).1 (List.mem_map.2 ⟨f, hbelow, hnode⟩)
  | descend fresh => exact h.not_settled_push fresh

theorem Coherent.position_lt {w : Walk n} (h : Coherent table w) {x : Fin n} {i : Nat}
    (does : Does table w (.read x i)) : i < (table.get x).length := by
  cases does with
  | @read _ p rest =>
    calc Frame.next table ⟨x, p :: rest⟩
        < Frame.next table ⟨x, p :: rest⟩ + 1 := Nat.lt_succ_self _
      _ = Frame.next table ⟨x, rest⟩ := h.next_of_read.symm
      _ ≤ (table.get x).length := Nat.sub_le _ _

theorem nodup_deeds (w : Walk n) : (w.deeds table).Nodup := by
  unfold deeds
  split <;> try split
  all_goals simp

/-- A move that finds a frame on the stack reads an entry or pops a node, and no other does. -/
theorem countP_deeds (table : Precedence n) (w : Walk n) :
    (w.deeds table).countP Deed.isRead + (w.deeds table).countP Deed.isPop =
      if w.stack.isEmpty then 0 else 1 := by
  match w with
  | ⟨[], _, _, []⟩ => rfl
  | ⟨root :: _, _, _, []⟩ =>
    simp only [deeds]
    split <;> rfl
  | ⟨_, _, _, ⟨_, []⟩ :: _⟩ => rfl
  | ⟨_, _, _, ⟨_, _ :: _⟩ :: _⟩ =>
    simp only [deeds]
    split <;> rfl

/-! ## Runs -/

/-- A walk has passed through some states, in order, before the one it is in. -/
inductive Passes (table : Precedence n) : List (Walk n) → Walk n → Prop
  | start : Passes table [] (start n)
  | move {before : List (Walk n)} {w w' : Walk n} (passes : Passes table before w)
      (goes : step table w = .goOn w') : Passes table (before ++ [w]) w'

/-- All that the moves from some states do, in order. -/
def deedsOf (table : Precedence n) (states : List (Walk n)) : List (Deed n) :=
  states.flatMap (deeds table)

/-- The states in which the stack holds a frame: those from which the inner loop goes on. -/
def steps (states : List (Walk n)) : Nat := states.countP fun w => !w.stack.isEmpty

/-- The states in which the stack is empty: those from which the walk turns to the next root. -/
def turns (states : List (Walk n)) : Nat := states.countP fun w => w.stack.isEmpty

theorem deedsOf_concat (states : List (Walk n)) (w : Walk n) :
    deedsOf table (states ++ [w]) = deedsOf table states ++ w.deeds table := by
  simp only [deedsOf, List.flatMap_append, List.flatMap_singleton]

variable {before : List (Walk n)} {w : Walk n}

theorem Passes.reached (h : Passes table before w) : Reached table w := by
  induction h with
  | start => exact .start
  | move _ goes ih => exact .move ih (step_eq_goOn_iff.1 goes)

theorem Reached.exists_passes (h : Reached table w) : ∃ before, Passes table before w := by
  induction h with
  | start => exact ⟨[], .start⟩
  | move _ goes ih =>
    obtain ⟨before, passes⟩ := ih
    exact ⟨_, passes.move goes.step_eq⟩

/-- A run has done exactly what its last state tells is done. -/
theorem Passes.mem_deedsOf_iff (h : Passes table before w) (d : Deed n) :
    d ∈ deedsOf table before ↔ Settled table w d := by
  induction h with
  | start => exact iff_of_false List.not_mem_nil (not_settled_start d)
  | move passes goes ih =>
    simp only [deedsOf_concat, List.mem_append, ih,
      (step_eq_goOn_iff.1 goes).settled_iff passes.reached.coherent]

/-- A walk does nothing twice. -/
theorem Passes.nodup_deedsOf (h : Passes table before w) :
    (deedsOf table (before ++ [w])).Nodup := by
  have hconcat : ∀ {before : List (Walk n)} {w : Walk n}, Passes table before w →
      (deedsOf table before).Nodup → (deedsOf table (before ++ [w])).Nodup := by
    intro before w passes nodup
    simp only [deedsOf_concat]
    refine List.nodup_append'.2 ⟨nodup, nodup_deeds w, fun d hd hd' => ?_⟩
    exact passes.reached.coherent.not_settled (mem_deeds_iff.1 hd')
      ((passes.mem_deedsOf_iff d).1 hd)
  induction h with
  | start => exact hconcat .start .nil
  | move passes goes ih => exact hconcat (passes.move goes) ih

theorem Passes.position_lt (h : Passes table before w) {x : Fin n} {i : Nat}
    (hd : .read x i ∈ deedsOf table (before ++ [w])) : i < (table.get x).length := by
  have hlast : ∀ {before : List (Walk n)} {w : Walk n}, Passes table before w →
      .read x i ∈ w.deeds table → i < (table.get x).length :=
    fun passes hd => passes.reached.coherent.position_lt (mem_deeds_iff.1 hd)
  induction h with
  | start => exact hlast .start (by simpa [deedsOf] using hd)
  | move passes goes ih =>
    simp only [deedsOf_concat (_ ++ _), List.mem_append] at hd
    cases hd with
    | inl hbefore => exact ih hbefore
    | inr hcurrent => exact hlast (passes.move goes) hcurrent

/-! ## Counting -/

/-- Each step of the inner loop reads an entry or pops a frame. -/
theorem steps_eq (table : Precedence n) (states : List (Walk n)) : steps states =
    (deedsOf table states).countP Deed.isRead + (deedsOf table states).countP Deed.isPop := by
  induction states with
  | nil => rfl
  | cons w states ih =>
    have hcons : deedsOf table (w :: states) = w.deeds table ++ deedsOf table states := rfl
    have hfirst := countP_deeds table w
    have hsteps : steps (w :: states) = steps states + if w.stack.isEmpty then 0 else 1 := by
      simp only [steps, List.countP_cons]
      cases w.stack.isEmpty <;> rfl
    simp only [hcons, List.countP_append, hsteps, ih]
    omega

section Kinds

variable {done possible : List (Deed n)} {kind : Deed n → Bool}

/-- Deeds of a kind that are not repeated are no more than the possible ones of this kind. -/
theorem countP_le_length (nodup : done.Nodup)
    (among : ∀ d ∈ done, kind d = true → d ∈ possible) : done.countP kind ≤ possible.length := by
  have hsub : done.filter kind ⊆ possible := by
    intro d hd
    obtain ⟨hmem, hkind⟩ := List.mem_filter.1 hd
    exact among d hmem hkind
  simpa only [List.countP_eq_length_filter] using (nodup.filter _).length_le_of_subset hsub

/-- Deeds of one kind that are never repeated are at most as many as nodes. -/
theorem countP_le_of_node (deed : Fin n → Deed n) (nodup : done.Nodup)
    (node : ∀ d, kind d = true → ∃ x, deed x = d) : done.countP kind ≤ n := by
  have hle : done.countP kind ≤ ((List.finRange n).map deed).length :=
    countP_le_length nodup fun d _ hkind => by simpa using node d hkind
  simpa only [List.length_map, List.length_finRange] using hle

end Kinds

theorem Passes.pushes_le (h : Passes table before w) :
    (deedsOf table (before ++ [w])).countP Deed.isPush ≤ n := by
  refine countP_le_of_node .push h.nodup_deedsOf fun d hpush => ?_
  cases d with
  | push x => exact ⟨x, rfl⟩
  | _ => cases hpush

theorem Passes.pops_le (h : Passes table before w) :
    (deedsOf table (before ++ [w])).countP Deed.isPop ≤ n := by
  refine countP_le_of_node .pop h.nodup_deedsOf fun d hpop => ?_
  cases d with
  | pop x => exact ⟨x, rfl⟩
  | _ => cases hpop

/-- Every entry of the table is read at most once. -/
theorem Passes.reads_le (h : Passes table before w) :
    (deedsOf table (before ++ [w])).countP Deed.isRead ≤ entries table := by
  have hpossible : ∀ d ∈ deedsOf table (before ++ [w]), d.isRead = true →
      d ∈ (List.finRange n).flatMap fun x => (List.range (table.get x).length).map (.read x) := by
    intro d hd hread
    cases d with
    | read x i =>
      have hlt := h.position_lt hd
      simp [hlt]
    | _ => cases hread
  simpa only [entries, List.length_flatMap, List.length_map, List.length_range] using
    countP_le_length h.nodup_deedsOf hpossible

/-- The inner loop goes on at most as often as there are nodes and entries. -/
theorem Passes.steps_le (h : Passes table before w) : steps (before ++ [w]) ≤ n + entries table :=
  calc steps (before ++ [w])
      = (deedsOf table (before ++ [w])).countP Deed.isRead +
          (deedsOf table (before ++ [w])).countP Deed.isPop := steps_eq table _
    _ ≤ entries table + n := Nat.add_le_add h.reads_le h.pops_le
    _ = n + entries table := Nat.add_comm _ _

/-- A move from an empty stack uses up a root, and other moves leave the roots as they are. -/
theorem Goes.length_roots {w w' : Walk n} (h : Goes table w w') :
    w.roots.length = w'.roots.length + if w.stack.isEmpty then 1 else 0 := by
  cases h <;> rfl

/-- Each turn of the outer loop takes one root. -/
theorem Passes.turns_add_roots (h : Passes table before w) :
    turns before + w.roots.length = n := by
  induction h with
  | start => simp [turns, Walk.start]
  | @move before w w' passes goes ih =>
    have hroots := (step_eq_goOn_iff.1 goes).length_roots
    have hturns : turns (before ++ [w]) = turns before + if w.stack.isEmpty then 1 else 0 := by
      simp only [turns, List.countP_append, List.countP_singleton]
    omega

theorem Passes.turns_le (h : Passes table before w) : turns before ≤ n :=
  Nat.le.intro h.turns_add_roots

/-- What a walk has done when it has passed through some states and makes the next move from
    another. -/
structure Frugal (table : Precedence n) (before : List (Walk n)) (w : Walk n) : Prop where
  stack_le : w.stack.length ≤ n
  /-- The stack and the placed nodes are what the moves so far made of them. -/
  settled : ∀ d, d ∈ deedsOf table before ↔ Settled table w d
  /-- Nothing is done twice, by the next move neither. -/
  once : (deedsOf table (before ++ [w])).Nodup
  position_lt : ∀ (x : Fin n) (i : Nat),
    .read x i ∈ deedsOf table (before ++ [w]) → i < (table.get x).length
  pushes_le : (deedsOf table (before ++ [w])).countP Deed.isPush ≤ n
  pops_le : (deedsOf table (before ++ [w])).countP Deed.isPop ≤ n
  reads_le : (deedsOf table (before ++ [w])).countP Deed.isRead ≤ entries table
  steps_eq : steps (before ++ [w]) = (deedsOf table (before ++ [w])).countP Deed.isRead +
    (deedsOf table (before ++ [w])).countP Deed.isPop
  steps_le : steps (before ++ [w]) ≤ n + entries table
  turns_le : turns before ≤ n

/-- The invariant holds at every state of a walk, each node is pushed and popped and each entry
    read at most once, and after at most as many steps as there are nodes and entries the walk
    stops, with an order or with a back edge. -/
theorem sound_and_frugal (table : Precedence n) :
    (∀ before w, Passes table before w → Sound table w ∧ Frugal table before w) ∧
      ∃ before w, Passes table before w ∧
        ((∃ order, step table w = .finished order ∧ walk table = .ok order) ∨
          ∃ e, step table w = .cycle e ∧ walk table = .error e) := by
  refine ⟨fun before w passes => ?_, ?_⟩
  · have sound : Sound table w := passes.reached.coherent.sound
    exact ⟨sound,
      { stack_le := sound.length_stack_le
        settled := passes.mem_deedsOf_iff
        once := passes.nodup_deedsOf
        position_lt := fun _ _ => passes.position_lt
        pushes_le := passes.pushes_le
        pops_le := passes.pops_le
        reads_le := passes.reads_le
        steps_eq := steps_eq table _
        steps_le := passes.steps_le
        turns_le := passes.turns_le }⟩
  · obtain ⟨w, reached, stop⟩ := exists_stop table
    obtain ⟨before, passes⟩ := reached.exists_passes
    exact ⟨before, w, passes, stop⟩

/-- When the innermost of three nodes is about to look back at the one below it, each is pushed
    once and two entries are read. -/
theorem sound_and_frugal_before_cycle :
    ∃ before w, Passes (#v[[1], [2], [1]] : Precedence 3) before w ∧
      w.stack = [⟨2, [1]⟩, ⟨1, []⟩, ⟨0, []⟩] ∧
      deedsOf #v[[1], [2], [1]] before = [.push 0, .read 0 0, .push 1, .read 1 0, .push 2] ∧
      Sound #v[[1], [2], [1]] w ∧ Frugal #v[[1], [2], [1]] before w := by
  have passes : Passes (#v[[1], [2], [1]] : Precedence 3) _ _ :=
    .move (.move (.move .start rfl) rfl) rfl
  exact ⟨_, _, passes, rfl, rfl, (sound_and_frugal _).1 _ _ passes⟩

end Walk

end Activation.Order
