-- SUMMARY: Arranged modules stand after all that must precede them, unless constraints are cyclic.
import Activation.Order
import Activation.Proofs.Order.Baseline
import Activation.Proofs.Order.Constraint
import Activation.Proofs.Walk.Placement

/-!
# Arrangements

What the walk achieves for positions, read for the modules at these positions: an
arrangement has every module once and respects every chain of constraints, and there is one
exactly when the constraints have no cycle.
-/

namespace Activation.Order

variable {modules : List Declared} {out : List ModuleId} {conflict : Conflict}

def ranked (modules : List Declared) : Array Declared := (baseline modules).toArray

theorem getElem?_baselineIds (p : Fin (ranked modules).size) :
    (baselineIds modules)[p.val]? = some (moduleAt (ranked modules) p).id := by
  have hp : p.val < (baseline modules).length := p.isLt
  change (baselineIds modules)[p.val]? = some (baseline modules)[p.val].id
  simp [baselineIds, hp]

theorem lt_length_baselineIds (p : Fin (ranked modules).size) :
    p.val < (baselineIds modules).length := by
  rw [baselineIds, List.length_map]
  exact p.isLt

theorem ByName.distinct_ranked (h : ByName modules) : Distinct (ranked modules) := by
  intro p q heq
  refine Fin.ext ((List.getElem?_inj (lt_length_baselineIds p) h.nodup_baselineIds).1 ?_)
  rw [getElem?_baselineIds p, getElem?_baselineIds q, heq]

theorem mustPrecede_ranked (modules : List Declared) :
    MustPrecede (ranked modules).toList = MustPrecede modules :=
  mustPrecede_congr fun _ => mem_baseline

/-- A path between ranks is a chain between the modules that have them. -/
theorem leads_ranked_iff (h : ByName modules) {q p : Fin (ranked modules).size} :
    Leads (precedence (ranked modules)) q p ↔
      Chain modules (moduleAt (ranked modules) q).id (moduleAt (ranked modules) p).id := by
  rw [leads_precedence_iff h.distinct_ranked, Chain, mustPrecede_ranked]

theorem exists_rank {a : ModuleId} (ha : a ∈ modules.map (·.id)) :
    ∃ p : Fin (ranked modules).size, (moduleAt (ranked modules) p).id = a :=
  exists_position (mem_baselineIds.2 ha)

/-- An arrangement names the nodes of a walk over the ranks. -/
theorem arrange_eq_ok_iff :
    arrange modules = .ok out ↔
      ∃ order, walk (precedence (ranked modules)) = .ok order ∧
        order.map (fun p => (moduleAt (ranked modules) p).id) = out := by
  simp only [arrange, ranked]
  cases walk (precedence (baseline modules).toArray) with
  | ok order =>
    simp only [Except.ok.injEq, exists_eq_left']
    rfl
  | error e => simp only [reduceCtorEq, false_and, exists_false]

/-- A conflict names the two nodes at which a walk over the ranks fails. -/
theorem arrange_eq_error_iff :
    arrange modules = .error conflict ↔
      ∃ e, walk (precedence (ranked modules)) = .error e ∧
        conflict = ⟨(moduleAt (ranked modules) e.node).id,
          (moduleAt (ranked modules) e.predecessor).id⟩ := by
  simp only [arrange, ranked]
  cases walk (precedence (baseline modules).toArray) with
  | ok order => simp
  | error e =>
    simp only [Except.error.injEq, exists_eq_left', eq_comm]
    rfl

/-- A walk places no node twice, and ranks have different names. -/
theorem nodup_of_arrange (h : ByName modules) (hok : arrange modules = .ok out) : out.Nodup := by
  obtain ⟨order, hwalk, rfl⟩ := arrange_eq_ok_iff.1 hok
  exact (Walk.nodup_of_walk hwalk).map fun p q heq => h.distinct_ranked p q heq

theorem mem_of_arrange (hok : arrange modules = .ok out) {a : ModuleId} :
    a ∈ out ↔ a ∈ modules.map (·.id) := by
  obtain ⟨order, hwalk, rfl⟩ := arrange_eq_ok_iff.1 hok
  constructor
  · intro ha
    obtain ⟨p, -, rfl⟩ := List.mem_map.1 ha
    exact List.mem_map_of_mem (mem_baseline.1 (moduleAt_mem p))
  · intro ha
    obtain ⟨p, rfl⟩ := exists_rank ha
    exact List.mem_map_of_mem (Walk.mem_of_walk hwalk p)

theorem perm_of_arrange (h : ByName modules) (hok : arrange modules = .ok out) :
    out.Perm (baselineIds modules) := by
  refine (List.perm_ext_iff_of_nodup (nodup_of_arrange h hok) h.nodup_baselineIds).2 fun a => ?_
  rw [mem_of_arrange hok, mem_baselineIds]

/-- In an arrangement a module stands before all to which a chain of constraints leads from it. -/
theorem standsBefore_of_arrange (h : ByName modules) (hok : arrange modules = .ok out)
    {a b : ModuleId} (hchain : Chain modules a b) : StandsBefore out a b := by
  obtain ⟨order, hwalk, rfl⟩ := arrange_eq_ok_iff.1 hok
  obtain ⟨p, rfl⟩ := exists_rank hchain.mem_left
  obtain ⟨q, rfl⟩ := exists_rank hchain.mem_right
  exact (Walk.standsBefore_of_walk hwalk ((leads_ranked_iff h).2 hchain)).map _

/-- Modules can be arranged exactly when no module must precede itself. -/
theorem exists_arrange_eq_ok_iff (h : ByName modules) :
    (∃ out, arrange modules = .ok out) ↔ ∀ a, ¬ Chain modules a a := by
  have hwalk : (∃ out, arrange modules = .ok out) ↔
      ∃ order, walk (precedence (ranked modules)) = .ok order := by
    simp only [arrange_eq_ok_iff]
    constructor
    · rintro ⟨-, order, hwalk, -⟩
      exact ⟨order, hwalk⟩
    · rintro ⟨order, hwalk⟩
      exact ⟨_, order, hwalk, rfl⟩
  rw [hwalk, Walk.exists_walk_eq_ok_iff]
  constructor
  · intro acyclic a hchain
    obtain ⟨p, rfl⟩ := exists_rank hchain.mem_left
    exact acyclic p ((leads_ranked_iff h).2 hchain)
  · exact fun acyclic p hp => acyclic _ ((leads_ranked_iff h).1 hp)

/-- Modules are in conflict exactly when some module must precede itself. -/
theorem exists_arrange_eq_error_iff (h : ByName modules) :
    (∃ conflict, arrange modules = .error conflict) ↔ ∃ a, Chain modules a a := by
  rw [← not_iff_not, not_exists, not_exists, ← exists_arrange_eq_ok_iff h]
  cases arrange modules with
  | ok out => simp
  | error conflict => simp

end Activation.Order
