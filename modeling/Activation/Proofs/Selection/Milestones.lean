-- SUMMARY: The milestones that a selection writes to the log, phase by phase.
import Activation.Proofs.OwnEvents
import Activation.Proofs.Selection.Phases

/-!
# Milestones of a selection

Over collaborators set apart, each phase of a selection does what it does otherwise. The
milestones that it writes depend on its result alone: collaborators are asked quietly, and a
phase reports only when it succeeds. Gathering is the exception, as it reports two stages
before an exclusion can turn out to be invalid.
-/

namespace Activation.Selector

variable {σ : Type} {s : Selector σ} {request : Request} {left ordered : List ModuleId}

/-! ## What the phases write -/

section Marks

variable (s request)

/-- The milestones of gathering, when these candidates are listed. -/
def gathered (raw : List ModuleId) : List Event :=
  if raw = [] then []
  else [.stageComplete .loaded raw.length,
    .stageComplete .deduplicated (Candidates.distinct raw).length] ++
      if s.invalidExclusions request raw = [] then
        [.stageComplete .exclusionsApplied (s.remaining request raw).length]
      else []

end Marks

theorem milestones_unknownExclusion (names : List String) :
    milestones (names.map .unknownExclusion) = [] := by
  simp [milestones, Event.stage?, Event.inspected?]

@[simp] theorem milestones_stageComplete {stage : Stage} {modules : Nat} {events : List Event} :
    milestones (.stageComplete stage modules :: events) =
      .stageComplete stage modules :: milestones events := rfl

@[simp] theorem remaining_apart (raw : List ModuleId) :
    s.apart.remaining request raw = s.remaining request raw := rfl

theorem readingStart_eq_logged (raw : List ModuleId) (k : Ledger σ) :
    s.readingStart request raw k = k.logged
      ([.stageComplete .loaded raw.length,
        .stageComplete .deduplicated (Candidates.distinct raw).length] ++
        (Exclusion.ofStanding .unknown (Candidates.distinct raw) (s.exclusions request)
          s.locator).map .unknownExclusion ++
        [.stageComplete .exclusionsApplied (s.remaining request raw).length]) := by
  simp [readingStart, passStart, Ledger.logged]

/-- While candidates are gathered, the stages are reported that gathering gets to. -/
theorem writes_gather :
    Run.Writes s.Reticent (s.apart.gather request) (s.gather request)
      (Run.marksAfter s.candidates fun raw _ => s.gathered request raw) := by
  intro l
  have hlisted := Run.Quiet.apart (fun holds : s.Reticent => holds.candidates) l
  rcases hlist' : s.candidates.apart.exec l with ⟨r', k'⟩
  rcases hlist : s.candidates.exec l.whole with ⟨r, k⟩
  rw [hlist', hlist] at hlisted
  obtain rfl : r' = r := hlisted.result
  cases r' with
  | error fault =>
    rw [gather_eq_error_iff.2 (.inl (discover_eq_error_iff.2 (.inl ⟨fault, hlist', rfl⟩))),
      gather_eq_error_iff.2 (.inl (discover_eq_error_iff.2 (.inl ⟨fault, hlist, rfl⟩))),
      Run.marksAfter_of_error hlist]
    exact ⟨rfl, hlisted.whole, hlisted.own, hlisted.log⟩
  | ok raw =>
    rw [Run.marksAfter_of_ok hlist]
    by_cases none : raw = []
    · subst none
      rw [gather_eq_error_iff.2 (.inl (discover_eq_error_iff.2 (.inr ⟨hlist', rfl⟩))),
        gather_eq_error_iff.2 (.inl (discover_eq_error_iff.2 (.inr ⟨hlist, rfl⟩)))]
      exact ⟨rfl, hlisted.whole, hlisted.own, hlisted.log⟩
    -- What is left to do only writes to the log.
    by_cases valid : s.invalidExclusions request raw = []
    · have valid' : s.apart.invalidExclusions request raw = [] := valid
      rw [gather_eq_ok_iff.2 ⟨raw, k', ⟨hlist', none, valid'⟩, rfl, rfl⟩,
        gather_eq_ok_iff.2 ⟨raw, k, ⟨hlist, none, valid⟩, rfl, rfl⟩,
        readingStart_eq_logged, readingStart_eq_logged, gathered, if_neg none, if_pos valid]
      exact hlisted.logged _ (by simp [milestones_unknownExclusion])
    · have invalid' : s.apart.invalidExclusions request raw ≠ [] := valid
      rw [gather_eq_error_iff.2 (.inr ⟨raw, k', hlist', none, invalid', rfl, rfl⟩),
        gather_eq_error_iff.2 (.inr ⟨raw, k, hlist, none, valid, rfl, rfl⟩), gathered,
        if_neg none, if_neg valid]
      exact hlisted.logged _ (by simp [milestones_unknownExclusion])

theorem quiet_metadata (id : ModuleId) :
    Run.Quiet s.Reticent (s.apart.source.metadata id) (s.source.metadata id) := by
  by_cases indexed : s.index.wasProcessed id
  · simp only [source, Pass.direct, apart, indexed, if_true]
    exact .ofExcept _
  · simp only [source, Pass.direct, apart, indexed]
    exact (Run.Quiet.report rfl).bind fun _ => .apart fun holds => holds.inspector id

/-- The ordering itself reports no stage. -/
theorem quiet_order :
    Run.Quiet s.Reticent (Order.order s.apart.source left) (Order.order s.source left) := by
  have hsurvey : Run.Quiet s.Reticent (Order.survey s.apart.source left)
      (Order.survey s.source left) := by
    apply Run.Quiet.mapM
    intro id _
    exact ((quiet_metadata id).mapFailure _).bind fun _ => .pure _
  apply hsurvey.bind
  intro modules
  cases Order.arrange modules with
  | ok ids => exact (Run.Quiet.report rfl).bind fun _ => .pure _
  | error conflict => exact .throw _

theorem writes_settle :
    Run.Writes s.Reticent (s.apart.settle left) (s.settle left)
      (Run.marksAfter (s.settle left) fun ordered _ =>
        [.metadataRead (s.unindexed left).length, .stageComplete .ordered ordered.length]) := by
  rw [settle_eq_order_bind, settle_eq_order_bind]
  exact quiet_order.reporting fun _ => rfl

theorem quiet_judge {filter : Filter σ} (hfilter : filter ∈ s.filters) :
    Run.Quiet s.Reticent (filter.apart.judge ordered s.index) (filter.judge ordered s.index) := by
  have hverdicts := Run.Quiet.apart fun holds : s.Reticent => holds.filters filter hfilter ordered
  apply (hverdicts.mapFailure _).bind
  intro verdicts
  by_cases count : verdicts.length = ordered.length
  · rw [if_pos count, if_pos count]
    exact .pure _
  · rw [if_neg count, if_neg count]
    exact .throw _

theorem quiet_conclude {reticent : Prop} (filters : List (Filter σ)) (sieved : Sieved) :
    Run.Quiet reticent (Filter.conclude (filters.map Filter.apart) sieved)
      (Filter.conclude filters sieved) := by
  have hsilent : milestones (Filter.divided filters sieved) = [] := by
    unfold Filter.divided
    split
    · rfl
    · rfl
  refine .of_logged (fun l => ?_) (fun l => Filter.exec_conclude filters sieved) hsilent
  rw [Filter.exec_conclude, Filter.divided_congr (List.length_map Filter.apart)]

theorem writes_sieve :
    Run.Writes s.Reticent (s.apart.sieve ordered) (s.sieve ordered)
      (Run.marksAfter (s.sieve ordered) fun sieved _ =>
        [.stageComplete .filtered sieved.kept.length]) := by
  have happly : Run.Quiet s.Reticent (Filter.apply s.apart.filters ordered s.apart.index)
      (Filter.apply s.filters ordered s.index) := by
    rw [Filter.apply_eq_mapM_bind, Filter.apply_eq_mapM_bind]
    have hjudge : Run.Quiet s.Reticent (s.apart.filters.mapM (Filter.judge ordered s.apart.index))
        (s.filters.mapM (Filter.judge ordered s.index)) := by
      simp only [apart, List.mapM_map]
      exact .mapM fun filter hfilter => quiet_judge hfilter
    exact hjudge.bind fun verdicts => quiet_conclude s.filters _
  exact happly.reporting fun _ => rfl

theorem announce_eq_tellAll_bind (s : Selector σ) (exclusions : NameSet) (sieved : Sieved) :
    s.announce exclusions sieved = (do
      let _ ← Listener.tellAll s.listeners ⟨sieved.kept, exclusions⟩
      Run.report [.stageComplete .notified sieved.kept.length,
        .stageComplete .done sieved.kept.length]
      return ⟨sieved.kept, exclusions, sieved.removed⟩) := by
  apply Run.ext_exec
  intro l
  rw [announce, Run.exec_bind, Run.exec_bind]
  rcases (Listener.tellAll s.listeners ⟨sieved.kept, exclusions⟩).exec l with ⟨e | told, k⟩
  · rfl
  · exact Prod.ext rfl Ledger.logged_logged

theorem writes_announce {exclusions : NameSet} {sieved : Sieved} :
    Run.Writes s.Reticent (s.apart.announce exclusions sieved) (s.announce exclusions sieved)
      (Run.marksAfter (s.announce exclusions sieved) fun sel _ =>
        [.stageComplete .notified sel.modules.length,
          .stageComplete .done sel.modules.length]) := by
  have htell : Run.Quiet s.Reticent
      (Listener.tellAll s.apart.listeners ⟨sieved.kept, exclusions⟩)
      (Listener.tellAll s.listeners ⟨sieved.kept, exclusions⟩) := by
    unfold Listener.tellAll
    rw [Run.forM_eq_mapM_bind, Run.forM_eq_mapM_bind]
    simp only [apart, List.mapM_map]
    refine .bind (.mapM fun listener hlistener => ?_) fun _ => .pure _
    exact (Run.Quiet.apart fun holds : s.Reticent =>
      holds.listeners listener hlistener _).mapFailure _
  rw [announce_eq_tellAll_bind, announce_eq_tellAll_bind]
  exact htell.reporting fun _ => rfl

/-! ## What a selection writes -/

/-- The milestones that a selection writes, phase by phase. -/
def marks (s : Selector σ) (request : Request) (l : Ledger σ) : List Event :=
  Run.marksAfter s.candidates (fun raw _ => s.gathered request raw) l ++
    Run.marksAfter (s.gather request) (fun left l =>
      Run.marksAfter (s.settle left) (fun ordered _ =>
        [.metadataRead (s.unindexed left).length, .stageComplete .ordered ordered.length]) l ++
      Run.marksAfter (s.settle left) (fun ordered l =>
        Run.marksAfter (s.sieve ordered) (fun sieved _ =>
          [.stageComplete .filtered sieved.kept.length]) l ++
        Run.marksAfter (s.sieve ordered) (fun sieved =>
          Run.marksAfter (s.announce (s.exclusions request) sieved) fun sel _ =>
            [.stageComplete .notified sel.modules.length,
              .stageComplete .done sel.modules.length]) l) l) l

/-- What a selection reports is what its phases report. -/
theorem writes_select (enabled : s.settings.enabled = true) (request : Request) :
    Run.Writes s.Reticent (s.apart.select request) (s.select request) (s.marks request) := by
  have enabled' : s.apart.settings.enabled = true := enabled
  rw [select_of_enabled enabled, select_of_enabled enabled', resolve_eq_sift_bind,
    resolve_eq_sift_bind]
  simp only [sift, bind_assoc]
  apply writes_gather.bind
  intro left
  apply writes_settle.bind
  intro ordered
  exact writes_sieve.bind fun sieved => writes_announce

end Activation.Selector
