-- SUMMARY: When two selections do the same, phase by phase.
import Activation.Proofs.Related
import Activation.Proofs.Selection.Phases

/-!
# Selections that agree

Two selections that gather the same candidates, in whatever order, go on alike as long as
their collaborators do: reading, ordering and filtering see the candidates only by name, and
listeners are told what the filters kept. What is assumed of the collaborators is that they
respect a relation on their states; a relation that is equality leaves them all their state,
but not the log.
-/

namespace Activation

variable {σ : Type} {W : σ → σ → Prop}

/-- Two lists have the same members, in whatever order and however often. -/
def SameMembers (ids ids' : List ModuleId) : Prop := ∀ a, a ∈ ids ↔ a ∈ ids'

theorem SameMembers.ofList_eq {ids ids' : List ModuleId} (h : SameMembers ids ids') :
    NameSet.ofList ids = NameSet.ofList ids' := by
  refine NameSet.ext_mem fun a => ?_
  rw [NameSet.mem_ofList, NameSet.mem_ofList]
  exact h a

namespace Order

variable {source source' : Source σ} {left left' : List ModuleId}

/-- Candidates with the same members are ordered alike by sources that agree on them. -/
theorem related_order (same : SameMembers left left')
    (metadata : ∀ id ∈ left, Run.Related W Eq (source.metadata id) (source'.metadata id)) :
    Run.Related W Eq (order source left) (order source' left') := by
  unfold order survey
  rw [← same.ofList_eq]
  have hsurvey : Run.Related W Eq
      ((NameSet.ofList left).toList.mapM (declared source))
      ((NameSet.ofList left).toList.mapM (declared source')) := by
    refine .mapM fun id hid => ?_
    refine ((metadata id (NameSet.mem_ofList.1 hid)).mapFailure _).bind fun m m' heq => ?_
    subst heq
    exact .pure rfl
  refine hsurvey.bind fun modules modules' heq => ?_
  subst heq
  cases arrange modules with
  | ok ids => exact (Run.Related.report _ _).bind fun _ _ _ => .pure rfl
  | error conflict => exact .throw _

end Order

namespace Filter

variable {candidates : List ModuleId} {index : Index} {filters : List (Filter σ)}

theorem related_judge {filter : Filter σ}
    (h : Run.Respects W (filter.verdicts candidates index)) :
    Run.Respects W (filter.judge candidates index) := by
  refine (h.mapFailure _).bind fun verdicts verdicts' heq => ?_
  subst heq
  by_cases hcount : verdicts.length = candidates.length
  · rw [if_pos hcount]
    exact .pure rfl
  · rw [if_neg hcount]
    exact .throw _

/-- Filters are asked for the same candidates in both runs, one after the other. -/
theorem related_apply
    (h : ∀ filter ∈ filters, Run.Respects W (filter.verdicts candidates index)) :
    Run.Respects W (apply filters candidates index) := by
  rw [apply_eq_mapM_bind]
  have hjudge : Run.Respects W (filters.mapM (judge candidates index)) :=
    .mapM fun filter hfilter => related_judge (h filter hfilter)
  refine hjudge.bind fun verdicts verdicts' heq => ?_
  subst heq
  intro l l' world
  rw [exec_conclude, exec_conclude]
  exact ⟨.ok rfl, world⟩

end Filter

theorem Listener.related_tellAll {listeners : List (Listener σ)} {notice : Notice}
    (h : ∀ listener ∈ listeners, Run.Respects W (listener.notify notice)) :
    Run.Respects W (Listener.tellAll listeners notice) := by
  rw [tellAll, Run.forM_eq_mapM_bind]
  have htell : Run.Respects W (listeners.mapM (Listener.tell notice)) :=
    .mapM fun listener hlistener => (h listener hlistener).mapFailure _
  exact htell.bind fun _ _ _ => .pure rfl

namespace Selector

/-- What the inspector and the filters do depends on the state only as far as it is told apart. -/
structure SiftRespects (W : σ → σ → Prop) (selector : Selector σ) : Prop where
  inspector : ∀ id, Run.Respects W (selector.inspector id)
  filters : ∀ filter ∈ selector.filters, ∀ ids,
    Run.Respects W (filter.verdicts ids selector.index)

/-- What the inspector, the filters and the listeners do depends on the state only as far as it
    is told apart. -/
structure Respects (W : σ → σ → Prop) (selector : Selector σ) : Prop
    extends selector.SiftRespects W where
  listeners : ∀ listener ∈ selector.listeners, ∀ notice, Run.Respects W (listener.notify notice)

variable {s s' : Selector σ} {request request' : Request} {l l' k k' : Ledger σ}
  {raw raw' left left' ordered : List ModuleId}

/-! ## Phases -/

/-- The order is settled by name, so candidates may be listed differently and modules that are not
    left inspected differently. -/
theorem related_settle (respects : s.SiftRespects W) (index : s'.index = s.index)
    (inspector : ∀ id ∈ left, s'.inspector id = s.inspector id) (same : SameMembers left left') :
    Run.Related W Eq (s.settle left) (s'.settle left') := by
  rw [settle_eq_order_bind, settle_eq_order_bind]
  have hmetadata : ∀ id ∈ left,
      Run.Related W Eq (s.source.metadata id) (s'.source.metadata id) := by
    intro id hid
    simp only [source, Pass.direct, index, inspector id hid]
    split
    · exact .ofExcept _
    · exact (Run.Related.report _ _).bind fun _ _ _ => respects.inspector id
  refine (Order.related_order same hmetadata).bind fun ordered ordered' heq => ?_
  subst heq
  exact (Run.Related.report _ _).bind fun _ _ _ => .pure rfl

theorem related_sieve (respects : s.SiftRespects W) (index : s'.index = s.index)
    (filters : s'.filters = s.filters) : Run.Related W Eq (s.sieve ordered) (s'.sieve ordered) := by
  unfold sieve
  rw [index, filters]
  have happly := Filter.related_apply fun filter hfilter =>
    respects.filters filter hfilter ordered
  refine happly.bind fun sieved sieved' heq => ?_
  subst heq
  exact (Run.Related.report _ _).bind fun _ _ _ => .pure rfl

theorem related_announce {exclusions : NameSet} {sieved : Sieved} (respects : s.Respects W)
    (listeners : s'.listeners = s.listeners) :
    Run.Related W Eq (s.announce exclusions sieved) (s'.announce exclusions sieved) := by
  unfold announce
  rw [listeners]
  have htell : Run.Respects W (Listener.tellAll s.listeners ⟨sieved.kept, exclusions⟩) :=
    Listener.related_tellAll fun listener hlistener => respects.listeners listener hlistener _
  refine htell.bind fun _ _ _ => ?_
  refine (Run.Related.report _ _).bind fun _ _ _ => ?_
  exact (Run.Related.report _ _).bind fun _ _ _ => .pure rfl

/-! ## Gathering -/

/-- The same candidates are left, and no excluded one. -/
structure SameLeft (exclusions : NameSet) (left left' : List ModuleId) : Prop where
  same : SameMembers left left'
  notExcluded : ∀ id ∈ left, id ∉ exclusions

/-- The same exclusions leave the same candidates, whatever the order and repeats in which they
    were listed. -/
theorem sameLeft_remaining (exclusions : s'.exclusions request' = s.exclusions request)
    (same : SameMembers raw raw') :
    SameLeft (s.exclusions request) (s.remaining request raw) (s'.remaining request' raw') := by
  refine ⟨fun a => ?_, fun id hid => (mem_remaining.1 hid).2⟩
  rw [mem_remaining, mem_remaining, exclusions, same a]

/-- Only the members of the lists of candidates matter for which exclusions are invalid. -/
theorem invalidExclusions_congr (locator : s'.locator = s.locator)
    (exclusions : s'.exclusions request' = s.exclusions request) (same : SameMembers raw raw') :
    s'.invalidExclusions request' raw' = s.invalidExclusions request raw := by
  unfold invalidExclusions Exclusion.ofStanding Exclusion.standing
  rw [locator, exclusions]
  simp only [Candidates.mem_distinct, same _]

/-- What is gathered depends on the listed candidates only by their members. -/
theorem endAlike_gather (locator : s'.locator = s.locator)
    (exclusions : s'.exclusions request' = s.exclusions request)
    (listing : Run.EndAlike W SameMembers (s.candidates.exec l) (s'.candidates.exec l')) :
    Run.EndAlike W (SameLeft (s.exclusions request)) ((s.gather request).exec l)
      ((s'.gather request').exec l') := by
  obtain ⟨agree, world⟩ := listing
  rcases listed : s.candidates.exec l with ⟨result, k⟩
  rcases listed' : s'.candidates.exec l' with ⟨result', k'⟩
  rw [listed, listed'] at agree world
  cases agree with
  | @error fault =>
    rw [gather_eq_error_iff.2 (.inl (discover_eq_error_iff.2 (.inl ⟨fault, listed, rfl⟩))),
      gather_eq_error_iff.2 (.inl (discover_eq_error_iff.2 (.inl ⟨fault, listed', rfl⟩)))]
    exact ⟨.error, world⟩
  | @ok raw raw' same =>
    have hinvalid := invalidExclusions_congr locator exclusions same
    by_cases none : raw = []
    · subst none
      have none' : raw' = [] := List.eq_nil_iff_forall_not_mem.2 fun a ha =>
        List.not_mem_nil ((same a).2 ha)
      subst none'
      rw [gather_eq_error_iff.2 (.inl (discover_eq_error_iff.2 (.inr ⟨listed, rfl⟩))),
        gather_eq_error_iff.2 (.inl (discover_eq_error_iff.2 (.inr ⟨listed', rfl⟩)))]
      exact ⟨.error, world⟩
    have some' : raw' ≠ [] := by
      rintro rfl
      exact none (List.eq_nil_iff_forall_not_mem.2 fun a ha => List.not_mem_nil ((same a).1 ha))
    by_cases valid : s.invalidExclusions request raw = []
    · rw [gather_eq_ok_iff.2 ⟨raw, k, ⟨listed, none, valid⟩, rfl, rfl⟩,
        gather_eq_ok_iff.2 ⟨raw', k', ⟨listed', some', hinvalid.trans valid⟩, rfl, rfl⟩]
      exact ⟨.ok (sameLeft_remaining exclusions same), world⟩
    · rw [gather_eq_error_iff.2 (.inr ⟨raw, k, listed, none, valid, rfl, rfl⟩),
        gather_eq_error_iff.2 (.inr ⟨raw', k', listed', some', hinvalid ▸ valid, rfl, rfl⟩),
        hinvalid]
      exact ⟨.error, world⟩

/-! ## Selections -/

/-- Selections that gather the same candidates sift them alike. -/
theorem endAlike_sift (respects : s.SiftRespects W) (index : s'.index = s.index)
    (inspector : ∀ id, id ∉ s.exclusions request → s'.inspector id = s.inspector id)
    (filters : s'.filters = s.filters)
    (gathered : Run.EndAlike W (SameLeft (s.exclusions request)) ((s.gather request).exec l)
      ((s'.gather request').exec l')) :
    Run.EndAlike W Eq ((s.sift request).exec l) ((s'.sift request').exec l') := by
  refine gathered.bind fun left left' hleft => ?_
  have hinspector : ∀ id ∈ left, s'.inspector id = s.inspector id := fun id hid =>
    inspector id (hleft.notExcluded id hid)
  refine (related_settle respects index hinspector hleft.same).bind fun ordered ordered' heq => ?_
  subst heq
  exact related_sieve respects index filters

/-- The collaborators of two selectors are the same, their sources of candidates apart. -/
structure Twin (s s' : Selector σ) : Prop where
  index : s'.index = s.index
  inspector : s'.inspector = s.inspector
  locator : s'.locator = s.locator
  filters : s'.filters = s.filters
  listeners : s'.listeners = s.listeners
  enabled : s'.settings.enabled = s.settings.enabled

/-- Selections with the same collaborators end alike if the same candidates are listed and the
    same names are excluded. -/
theorem endAlike_select (twin : s.Twin s') (respects : s.Respects W)
    (exclusions : s'.exclusions request' = s.exclusions request) (before : W l.world l'.world)
    (listing : Run.EndAlike W SameMembers (s.candidates.exec l) (s'.candidates.exec l')) :
    Run.EndAlike W Eq ((s.select request).exec l) ((s'.select request').exec l') := by
  by_cases enabled : s.settings.enabled = true
  · rw [select_of_enabled enabled, select_of_enabled (twin.enabled.trans enabled),
      resolve_eq_sift_bind, resolve_eq_sift_bind, exclusions]
    have hsift := endAlike_sift respects.toSiftRespects twin.index
      (fun id _ => congrFun twin.inspector id) twin.filters
      (endAlike_gather twin.locator exclusions listing)
    refine hsift.bind fun sieved sieved' heq => ?_
    subst heq
    exact related_announce respects twin.listeners
  · have enabled' : ¬ s'.settings.enabled = true := fun h => enabled (twin.enabled.symm.trans h)
    rw [select, select, if_neg enabled, if_neg enabled']
    exact ((Run.Related.report _ _).bind fun _ _ _ => .pure rfl) l l' before

end Selector

end Activation
