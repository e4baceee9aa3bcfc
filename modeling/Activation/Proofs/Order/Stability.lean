-- SUMMARY: A module leaves its place in the baseline only where a dependent needs it.
import Activation.Proofs.Order.Topological
import Activation.Proofs.Walk.Stability
import Mathlib

/-!
# Stability

A module is pulled to the least position at which it, or a module that depends on it,
stands in the baseline. The order never places a module before one that is pulled to an
earlier position (`pairwise_pull_of_arrange`), and what it keeps of the baseline follows
from that alone.
-/

namespace Activation.Order

variable {modules : List Declared} {out : List ModuleId} {a b : ModuleId}

/-- The position of a module in the baseline. -/
def position (modules : List Declared) (a : ModuleId) : Nat := (baselineIds modules).idxOf a

/-- The least position of a module and of all to which a chain of constraints leads from it. -/
noncomputable def pull (modules : List Declared) (a : ModuleId) : Nat :=
  sInf {k | ∃ z, (z = a ∨ Chain modules a z) ∧ position modules z = k}

/-- Some module that pulls stands where the pull says. -/
theorem exists_pull (modules : List Declared) (a : ModuleId) :
    ∃ z, (z = a ∨ Chain modules a z) ∧ position modules z = pull modules a := by
  have hself : position modules a ∈
      {k | ∃ z, (z = a ∨ Chain modules a z) ∧ position modules z = k} := ⟨a, .inl rfl, rfl⟩
  exact Nat.sInf_mem ⟨_, hself⟩

theorem pull_le_position {z : ModuleId} (h : z = a ∨ Chain modules a z) :
    pull modules a ≤ position modules z :=
  Nat.sInf_le ⟨z, h, rfl⟩

/-- A module is pulled to its own position if all that depend on it stand later. -/
theorem pull_eq_position (h : ∀ z, Chain modules a z → position modules a ≤ position modules z) :
    pull modules a = position modules a := by
  obtain ⟨z, hz, hpull⟩ := exists_pull modules a
  refine Nat.le_antisymm (pull_le_position (.inl rfl)) ?_
  rw [← hpull]
  rcases hz with rfl | hz
  · exact Nat.le_refl _
  · exact h z hz

/-! ## Positions of names and nodes -/

theorem ByName.position_ranked (h : ByName modules) (p : Fin (ranked modules).size) :
    position modules (moduleAt (ranked modules) p).id = p.val := by
  obtain ⟨hp, hget⟩ := List.getElem?_eq_some_iff.1 (getElem?_baselineIds p)
  rw [position, ← hget]
  exact h.nodup_baselineIds.idxOf_getElem p.val hp

/-- Ranks are reached along chains of their modules. -/
theorem reaches_ranked_iff (h : ByName modules) {q p : Fin (ranked modules).size} :
    Reaches (precedence (ranked modules)) q p ↔
      (moduleAt (ranked modules) p).id = (moduleAt (ranked modules) q).id ∨
        Chain modules (moduleAt (ranked modules) q).id (moduleAt (ranked modules) p).id := by
  rw [Reaches, Relation.reflTransGen_iff_eq_or_transGen, ← leads_ranked_iff h, Leads]
  constructor
  · rintro (rfl | hleads)
    · exact .inl rfl
    · exact .inr hleads
  · rintro (heq | hleads)
    · exact .inl (h.distinct_ranked _ _ heq)
    · exact .inr hleads

/-- If one rank is pulled no later than another, so is its module. -/
theorem pull_le_of_pulledNoLater (h : ByName modules) {p q : Fin (ranked modules).size}
    (hpulled : Walk.PulledNoLater (precedence (ranked modules)) p q) :
    pull modules (moduleAt (ranked modules) p).id ≤
      pull modules (moduleAt (ranked modules) q).id := by
  obtain ⟨z, hz, hpull⟩ := exists_pull modules (moduleAt (ranked modules) q).id
  have hmem : z ∈ modules.map (·.id) := by
    rcases hz with rfl | hz
    · exact mem_baselineIds.1 (List.mem_of_getElem? (getElem?_baselineIds q))
    · exact hz.mem_right
  obtain ⟨r, rfl⟩ := exists_rank hmem
  obtain ⟨y, hle, hreaches⟩ := hpulled r ((reaches_ranked_iff h).2 hz)
  calc pull modules (moduleAt (ranked modules) p).id
      ≤ position modules (moduleAt (ranked modules) y).id :=
        pull_le_position ((reaches_ranked_iff h).1 hreaches)
    _ = y.val := h.position_ranked y
    _ ≤ r.val := hle
    _ = position modules (moduleAt (ranked modules) r).id := (h.position_ranked r).symm
    _ = pull modules (moduleAt (ranked modules) q).id := hpull

/-- In an arrangement the modules stand by the positions to which they are pulled. -/
theorem pairwise_pull_of_arrange (h : ByName modules) (hok : arrange modules = .ok out) :
    out.Pairwise fun a b => pull modules a ≤ pull modules b := by
  obtain ⟨order, hwalk, rfl⟩ := arrange_eq_ok_iff.1 hok
  refine List.pairwise_map.2 ((Walk.pairwise_pulledNoLater_of_walk hwalk).imp ?_)
  intro p q hpulled
  exact pull_le_of_pulledNoLater h hpulled

/-! ## What is kept of the baseline -/

theorem Chain.position_lt (h : ∀ a b, MustPrecede modules a b →
    position modules a < position modules b) (hchain : Chain modules a b) :
    position modules a < position modules b := by
  induction hchain with
  | single hab => exact h _ _ hab
  | tail _ hbc ih => exact Nat.lt_trans ih (h _ _ hbc)

/-- A module that none needs is pulled by itself only. -/
theorem pull_eq_position_of_unneeded (h : ∀ z, ¬ MustPrecede modules a z) :
    pull modules a = position modules a := by
  refine pull_eq_position fun z hchain => ?_
  cases hchain using Relation.TransGen.head_induction_on with
  | single haz => exact absurd haz (h _)
  | head hac _ _ => exact absurd hac (h _)

theorem ByName.pairwise_position (h : ByName modules) :
    (baselineIds modules).Pairwise fun a b => position modules a ≤ position modules b := by
  unfold position
  refine List.pairwise_iff_getElem.2 fun i j hi hj hij => ?_
  rw [h.nodup_baselineIds.idxOf_getElem i hi, h.nodup_baselineIds.idxOf_getElem j hj]
  exact Nat.le_of_lt hij

/-- An order that keeps the baseline but for what dependents need. -/
structure Stable (modules : List Declared) (out : List ModuleId) : Prop where
  /-- What is pulled to an earlier position stands first. -/
  pulled : ∀ a ∈ out, ∀ b ∈ out, pull modules a < pull modules b → StandsBefore out a b
  /-- A baseline that respects all constraints is kept. -/
  sorted : (∀ a b, MustPrecede modules a b → position modules a < position modules b) →
    out = baselineIds modules
  /-- Modules that must precede none keep their places among each other. -/
  unneeded : ∀ a ∈ out, ∀ b ∈ out, (∀ z, ¬ MustPrecede modules a z) →
    (∀ z, ¬ MustPrecede modules b z) → position modules a < position modules b →
      StandsBefore out a b
  /-- Two modules change places only if the later one must precede something as early as the
      other. -/
  inverted : ∀ a b, position modules a < position modules b → StandsBefore out b a →
    ∃ z, Chain modules b z ∧ position modules z ≤ position modules a

/-- The walk visits roots by rank and places everything under a root before the next one, so what
    is pulled earlier is placed earlier. -/
theorem stable_of_arrange (h : ByName modules) (hok : arrange modules = .ok out) :
    Stable modules out := by
  have hpairwise := pairwise_pull_of_arrange h hok
  have hpulled : ∀ a ∈ out, ∀ b ∈ out, pull modules a < pull modules b → StandsBefore out a b := by
    intro a ha b hb hlt
    have hne : a ≠ b := fun e => Nat.lt_irrefl _ (e ▸ hlt)
    rcases StandsBefore.total ha hb hne with hbefore | hbefore
    · exact hbefore
    · exact absurd (hbefore.rel hpairwise) (Nat.not_le_of_lt hlt)
  refine { pulled := hpulled, sorted := ?sorted, unneeded := ?unneeded, inverted := ?inverted }
  case sorted =>
    intro hsorted
    have hpull : ∀ a, pull modules a = position modules a := fun a =>
      pull_eq_position fun z hchain => Nat.le_of_lt (hchain.position_lt hsorted)
    have hperm : out.Perm (baselineIds modules) := perm_of_arrange h hok
    -- Both lists are sorted by position, and no two modules share one.
    simp only [hpull] at hpairwise
    refine List.Perm.eq_of_pairwise ?_ hpairwise h.pairwise_position hperm
    intro a b ha _ hab hba
    exact (List.idxOf_inj (hperm.mem_iff.1 ha)).1 (Nat.le_antisymm hab hba)
  case unneeded =>
    intro a ha b hb hnone hnone' hlt
    apply hpulled a ha b hb
    rw [pull_eq_position_of_unneeded hnone, pull_eq_position_of_unneeded hnone']
    exact hlt
  case inverted =>
    intro a b hlt hbefore
    have hpull_le : pull modules b ≤ pull modules a :=
      hbefore.rel (R := fun a b => pull modules a ≤ pull modules b) hpairwise
    have hle : pull modules b ≤ position modules a :=
      Nat.le_trans hpull_le (pull_le_position (.inl rfl))
    obtain ⟨z, hz, hpull⟩ := exists_pull modules b
    rcases hz with rfl | hz
    · exact absurd (hpull ▸ hle) (Nat.not_le_of_lt hlt)
    · exact ⟨z, hz, hpull ▸ hle⟩

/-- The order of candidates is stable over their baseline, in which they are sorted by hint
    and name. -/
theorem stable_of_order {σ : Type} {source : Source σ} {candidates out : List ModuleId}
    {l after : Ledger σ} (hok : (order source candidates).exec l = (.ok out, after)) :
    ∃ modules m, Reads source (NameSet.ofList candidates).toList l modules m ∧
      (baselineIds modules).Perm candidates.dedup ∧
      (baseline modules).Pairwise Declared.Earlier ∧
      out.Perm candidates.dedup ∧ Stable modules out := by
  obtain ⟨modules, m, reads, harrange, -⟩ := order_eq_ok_iff.1 hok
  have hbaseline : (baselineIds modules).Perm candidates.dedup := reads.baselineIds_perm
  have hperm : out.Perm (baselineIds modules) := perm_of_arrange reads.byName harrange
  exact ⟨modules, m, reads, hbaseline, reads.byName.pairwise_baseline, hperm.trans hbaseline,
    stable_of_arrange reads.byName harrange⟩

/-- Of three candidates without hints, the last must precede the second and moves there. -/
theorem stable_of_order_of_three :
    let source : Source Unit :=
      { wasPrecomputed := fun _ => false
        metadata := fun id => return if id = "c" then { before := NameSet.ofList ["b"] } else {} }
    let out := ["a", "c", "b"]
    (order source ["c", "b", "a"]).exec ⟨(), []⟩ = (.ok out, ⟨(), [.candidatesOrdered 3]⟩) ∧
      ∃ modules m, Reads source (NameSet.ofList ["c", "b", "a"]).toList ⟨(), []⟩ modules m ∧
        (baselineIds modules).Perm ["c", "b", "a"].dedup ∧
        (baseline modules).Pairwise Declared.Earlier ∧
        out.Perm ["c", "b", "a"].dedup ∧ Stable modules out := by
  intro source out
  have hreads : Reads source (NameSet.ofList ["c", "b", "a"]).toList ⟨(), []⟩
      [⟨"a", {}⟩, ⟨"b", {}⟩, ⟨"c", { before := NameSet.ofList ["b"] }⟩] ⟨(), []⟩ :=
    .cons rfl (.cons rfl (.cons rfl .nil))
  have harrange : arrange [⟨"a", {}⟩, ⟨"b", {}⟩, ⟨"c", { before := NameSet.ofList ["b"] }⟩] =
      .ok out := by
    cbv
  have hok : (order source ["c", "b", "a"]).exec ⟨(), []⟩ =
      (.ok out, ⟨(), [.candidatesOrdered 3]⟩) := by
    rw [exec_order_of_reads hreads, harrange]
    rfl
  exact ⟨hok, stable_of_order hok⟩

end Activation.Order
