-- SUMMARY: A reported conflict lies on a cycle that leads to the first module behind one.
import Activation.Proofs.Order.Stability
import Activation.Proofs.Walk.Failure
import Mathlib

/-!
# Reported conflicts

The two modules of a conflict lie on one cycle of constraints, next to each other. Of all
modules that lie on a cycle, or to which a chain leads from one, the first in the baseline is
the one whose turn it was: both modules of the conflict are that module or must precede it.
-/

namespace Activation.Order

variable {modules : List Declared} {first second a b : ModuleId} {conflict : Conflict}

/-- The module lies on a cycle of constraints, or a chain leads to it from one. -/
def Afflicted (modules : List Declared) (a : ModuleId) : Prop :=
  ∃ c, Chain modules c c ∧ (a = c ∨ Chain modules c a)

/-- Of the modules that are afflicted, this is the first in the baseline. -/
structure FirstAfflicted (modules : List Declared) (a : ModuleId) : Prop where
  listed : a ∈ baselineIds modules
  afflicted : Afflicted modules a
  first : ∀ b, position modules b < position modules a → ¬ Afflicted modules b

/-- The second module directly precedes the first, and a chain leads back to it unless they are
    the same. -/
structure Conflicting (modules : List Declared) (first second : ModuleId) : Prop where
  precedes : MustPrecede modules second first
  returns : first = second ∨ Chain modules first second
  /-- A module that is in conflict with itself names itself. -/
  alone : first = second → ∃ d ∈ modules, d.id = first ∧
    (first ∈ d.metadata.after ∨ first ∈ d.metadata.before)
  /-- Both are, or must precede, the first module that is afflicted. -/
  root : ∃ r, FirstAfflicted modules r ∧ (r = first ∨ Chain modules first r) ∧
    (r = second ∨ Chain modules second r)

/-- The conflict lies on a cycle that passes through both modules. -/
theorem Conflicting.cycle (h : Conflicting modules first second) :
    Chain modules first first ∧ Chain modules second second := by
  cases h.returns with
  | inl heq =>
    subst heq
    exact ⟨.single h.precedes, .single h.precedes⟩
  | inr hchain => exact ⟨hchain.tail h.precedes, hchain.head h.precedes⟩

/-! ## From nodes to modules -/

/-- A rank leads to a cycle if its module is afflicted. -/
theorem ByName.afflicted_ranked_iff (h : ByName modules) {p : Fin (ranked modules).size} :
    Walk.Afflicted (precedence (ranked modules)) p ↔
      Afflicted modules (moduleAt (ranked modules) p).id := by
  unfold Walk.Afflicted Afflicted
  constructor
  · intro hafflicted
    obtain ⟨c, hcycle, hreaches⟩ := hafflicted
    exact ⟨_, (leads_ranked_iff h).1 hcycle, (reaches_ranked_iff h).1 hreaches⟩
  · intro hafflicted
    obtain ⟨c, hcycle, hreaches⟩ := hafflicted
    obtain ⟨q, rfl⟩ := exists_rank hcycle.mem_left
    exact ⟨q, (leads_ranked_iff h).2 hcycle, (reaches_ranked_iff h).2 hreaches⟩

theorem Afflicted.mem (h : Afflicted modules a) : a ∈ modules.map (·.id) := by
  obtain ⟨c, hcycle, heq | hchain⟩ := h
  · exact heq ▸ hcycle.mem_left
  · exact hchain.mem_right

/-- The first rank from which a cycle is reached is that of the first afflicted module of the
    baseline. -/
theorem ByName.firstAfflicted_ranked (h : ByName modules) {root : Fin (ranked modules).size}
    (hroot : Walk.Afflicted (precedence (ranked modules)) root)
    (hfirst : ∀ x < root, ¬ Walk.Afflicted (precedence (ranked modules)) x) :
    FirstAfflicted modules (moduleAt (ranked modules) root).id where
  listed := List.mem_of_getElem? (getElem?_baselineIds root)
  afflicted := h.afflicted_ranked_iff.1 hroot
  first := by
    intro b hlt hb
    obtain ⟨q, rfl⟩ := exists_rank hb.mem
    rw [h.position_ranked, h.position_ranked] at hlt
    exact hfirst q hlt (h.afflicted_ranked_iff.2 hb)

/-- A module that must precede itself declares so itself, on one side or the other. -/
theorem names_itself (h : ByName modules) (hself : MustPrecede modules a a) :
    ∃ d ∈ modules, d.id = a ∧ (a ∈ d.metadata.after ∨ a ∈ d.metadata.before) := by
  obtain ⟨x, hx, y, hy, rfl, hid, hdeclared⟩ := hself
  have heq : y = x := List.inj_on_of_nodup_map h.nodup_ids hy hx hid
  subst heq
  exact ⟨y, hy, rfl, hdeclared⟩

/-- The conflict that stops an arrangement is one. -/
theorem conflicting_of_arrange (h : ByName modules) (herror : arrange modules = .error conflict) :
    Conflicting modules conflict.first conflict.second := by
  obtain ⟨e, hwalk, rfl⟩ := arrange_eq_error_iff.1 herror
  obtain ⟨hdirect, hreturns⟩ := Walk.backEdge_of_walk hwalk
  obtain ⟨root, hroot, hfirst, hnode, hpredecessor⟩ := Walk.exists_root_of_walk hwalk
  have hprecedes : MustPrecede modules (moduleAt (ranked modules) e.predecessor).id
      (moduleAt (ranked modules) e.node).id := by
    rw [← mustPrecede_ranked]
    exact (mustPrecede_iff_direct h.distinct_ranked).2 hdirect
  refine
    { precedes := hprecedes
      returns := ((reaches_ranked_iff h).1 hreturns).imp_left Eq.symm
      alone := fun hsame => ?alone
      root := ⟨_, h.firstAfflicted_ranked hroot hfirst, (reaches_ranked_iff h).1 hnode,
        (reaches_ranked_iff h).1 hpredecessor⟩ }
  dsimp only at hsame ⊢
  rw [← hsame] at hprecedes
  exact names_itself h hprecedes

/-- A reported cycle is a cycle of constraints between the candidates, and the order of the
    candidates could not get past it. -/
theorem cycle_of_order {σ : Type} {source : Source σ} {candidates : List ModuleId}
    {l after : Ledger σ}
    (herror : (order source candidates).exec l = (.error (.cycleDetected first second), after)) :
    first ∈ candidates ∧ second ∈ candidates ∧
      ∃ modules, Reads source (NameSet.ofList candidates).toList l modules after ∧
        (baseline modules).Pairwise Declared.Earlier ∧ Conflicting modules first second ∧
        Chain modules first first ∧ Chain modules second second := by
  cases order_eq_error_iff.1 herror with
  | inl hsurvey =>
    obtain ⟨id, k, -, failure, -, hread⟩ := survey_eq_error_iff.1 hsurvey
    cases hread
  | inr hconflict =>
    obtain ⟨modules, conflict, reads, harrange, hfailure⟩ := hconflict
    cases hfailure
    have hconflicting := conflicting_of_arrange reads.byName harrange
    exact ⟨reads.mem_ids.1 hconflicting.precedes.mem_right,
      reads.mem_ids.1 hconflicting.precedes.mem_left, modules, reads,
      reads.byName.pairwise_baseline, hconflicting, hconflicting.cycle⟩

/-- Of four modules the last two must follow each other. The second must follow one of them,
    so it is there that the order fails. -/
theorem cycle_of_order_of_four :
    let source : Source Unit :=
      { wasPrecomputed := fun _ => false
        metadata := fun id => return if id = "c" then { after := NameSet.ofList ["d"] }
          else if id = "a" then {} else { after := NameSet.ofList ["c"] } }
    let candidates := ["d", "c", "b", "a"]
    let l : Ledger Unit := ⟨(), []⟩
    (order source candidates).exec l = (.error (.cycleDetected "d" "c"), l) ∧
      "d" ∈ candidates ∧ "c" ∈ candidates ∧
      ∃ modules, Reads source (NameSet.ofList candidates).toList l modules l ∧
        (baseline modules).Pairwise Declared.Earlier ∧ Conflicting modules "d" "c" ∧
        Chain modules "d" "d" ∧ Chain modules "c" "c" := by
  intro source candidates l
  have hreads : Reads source (NameSet.ofList candidates).toList l
      [⟨"a", {}⟩, ⟨"b", { after := NameSet.ofList ["c"] }⟩,
        ⟨"c", { after := NameSet.ofList ["d"] }⟩, ⟨"d", { after := NameSet.ofList ["c"] }⟩] l :=
    .cons rfl (.cons rfl (.cons rfl (.cons rfl .nil)))
  have harrange : arrange [⟨"a", {}⟩, ⟨"b", { after := NameSet.ofList ["c"] }⟩,
      ⟨"c", { after := NameSet.ofList ["d"] }⟩, ⟨"d", { after := NameSet.ofList ["c"] }⟩] =
      .error ⟨"d", "c"⟩ := by
    cbv
  have herror : (order source candidates).exec l = (.error (.cycleDetected "d" "c"), l) := by
    rw [exec_order_of_reads hreads, harrange]
  exact ⟨herror, cycle_of_order herror⟩

end Activation.Order
