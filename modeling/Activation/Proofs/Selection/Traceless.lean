-- SUMMARY: An excluded module leaves no trace in a selection.
import Activation.Proofs.Selection.Questions
import Activation.Rehearsal
import Mathlib

/-!
# Excluded modules leave no trace

A selection that excludes modules sifts the others as a selection does to which the excluded
ones were never listed and that excludes nothing: it inspects the same, gives filters the same
batches, and keeps and removes the same or fails alike. What the excluded modules declare does
not matter, nor whether it can be read.
-/

namespace Activation

/-- The failures of reading, ordering and filtering. -/
inductive SelectionFailure.Sifting : SelectionFailure → Prop
  | metadataRead {id : ModuleId} {failure : MetadataFailure} : Sifting (.metadataRead id failure)
  | cycleDetected {first second : ModuleId} : Sifting (.cycleDetected first second)
  | filterFailed {name : String} {fault : Fault} : Sifting (.filterFailed name fault)
  | verdictCount {name : String} {expected actual : Nat} :
      Sifting (.verdictCount name expected actual)

namespace Selector

variable {σ : Type} {W : σ → σ → Prop} {s s' : Selector σ} {request request' : Request}
  {raw raw' : List ModuleId} {l l' k k' : Ledger σ}

/-! ## From sifting to the outcome -/

/-- How a selection ends after it sifted the candidates: it fails as sifting did, or it selects
    what was kept unless a listener fails. -/
inductive Concludes (exclusions : NameSet) : Except SelectionFailure Sieved → Outcome → Prop
  | failed {e : SelectionFailure} (sifting : e.Sifting) : Concludes exclusions (.error e) (.error e)
  | selected {sieved : Sieved} :
      Concludes exclusions (.ok sieved) (.ok ⟨sieved.kept, exclusions, sieved.removed⟩)
  | untold {sieved : Sieved} {name : String} {fault : Fault} :
      Concludes exclusions (.ok sieved) (.error (.listenerFailed name fault))

theorem sifting_of_settle {left : List ModuleId} {m : Ledger σ} {e : SelectionFailure}
    (h : (s.settle left).exec l = (.error e, m)) : e.Sifting := by
  obtain ⟨id, failure, rfl⟩ | ⟨first, second, rfl⟩ := failure_of_settle h
  · exact .metadataRead
  · exact .cycleDetected

theorem sifting_of_sieve {ordered : List ModuleId} {m : Ledger σ} {e : SelectionFailure}
    (h : (s.sieve ordered).exec l = (.error e, m)) : e.Sifting := by
  obtain ⟨filter, k, -, misjudges⟩ := sieve_eq_error_iff.1 h
  cases misjudges with
  | failed => exact .filterFailed
  | miscounted => exact .verdictCount

/-- Once candidates are gathered, sifting fails only by metadata, by a cycle or by a filter. -/
theorem sifting_of_sift {m : Ledger σ} {e : SelectionFailure}
    (admits : s.Admits request raw l k) (h : (s.sift request).exec l = (.error e, m)) :
    e.Sifting := by
  have hgather := gather_eq_ok_iff.2 ⟨raw, k, admits, rfl, rfl⟩
  rcases Run.exec_bind_eq_error_iff.1 h with hfailed | ⟨left, m', -, h⟩
  · cases hgather.symm.trans hfailed
  · rcases Run.exec_bind_eq_error_iff.1 h with hsettle | ⟨ordered, m', -, hsieve⟩
    · exact sifting_of_settle hsettle
    · exact sifting_of_sieve hsieve

/-- Once candidates are gathered, a selection ends as its sifting does, or by a listener. -/
theorem concludes_of_admits (enabled : s.settings.enabled = true)
    (admits : s.Admits request raw l k) :
    Concludes (s.exclusions request) ((s.sift request).exec l).1 ((s.select request).exec l).1 := by
  rw [select_of_enabled enabled, resolve_eq_sift_bind, Run.exec_bind]
  rcases hsift : (s.sift request).exec l with ⟨e | sieved, told⟩
  · exact .failed (sifting_of_sift admits hsift)
  · dsimp only
    rcases hannounce : (s.announce (s.exclusions request) sieved).exec told with ⟨e | sel, m⟩
    · obtain ⟨listener, k', -, fault, -, rfl⟩ := announce_eq_error_iff.1 hannounce
      exact .untold
    · obtain ⟨units, k', -, rfl, -⟩ := announce_eq_ok_iff.1 hannounce
      exact .selected

/-- Announcing neither inspects nor judges. -/
theorem historyAfter_of_enabled (enabled : s.settings.enabled = true) (request : Request)
    (l : Ledger σ) (h : History) :
    (s.historyAfter request l h).inspected =
        ((s.watched.sift request).exec (l.beside h)).2.world.2.inspected ∧
      (s.historyAfter request l h).batches =
        ((s.watched.sift request).exec (l.beside h)).2.world.2.batches := by
  have enabled' : s.watched.settings.enabled = true := enabled
  rw [historyAfter, select_of_enabled enabled', resolve_eq_sift_bind, Run.exec_bind]
  rcases (s.watched.sift request).exec (l.beside h) with ⟨e | sieved, m⟩
  · exact ⟨rfl, rfl⟩
  · have hannounce : (s.watched.announce (s.exclusions request) sieved).exec m = _ :=
      records_announce m.first m.world.2
    show ((s.watched.announce (s.exclusions request) sieved).exec m).2.world.2.inspected = _ ∧
      ((s.watched.announce (s.exclusions request) sieved).exec m).2.world.2.batches = _
    rw [hannounce]
    exact ⟨List.append_nil _, List.append_nil _⟩

/-! ## Without the excluded modules -/

/-- The same selector, to which the modules of a set are unknown: it may inspect them otherwise,
    and it excludes nothing by configuration. -/
structure Unaware (excluded : NameSet) (s s' : Selector σ) : Prop where
  enabled : s'.settings.enabled = s.settings.enabled
  index : s'.index = s.index
  inspector : ∀ id, id ∉ excluded → s'.inspector id = s.inspector id
  filters : s'.filters = s.filters
  unconfigured : s'.settings.excludedNames = ∅

theorem Unaware.watched {excluded : NameSet} (unaware : s.Unaware excluded s') :
    s.watched.Unaware excluded s'.watched where
  enabled := unaware.enabled
  index := unaware.index
  inspector id hid := by
    show s'.inspector.watched id = s.inspector.watched id
    rw [Inspector.watched, Inspector.watched, unaware.inspector id hid]
  filters := congrArg Filter.watchedAll unaware.filters
  unconfigured := unaware.unconfigured

theorem Unaware.not_mem_exclusions {excluded : NameSet} (unaware : s.Unaware excluded s')
    (name : String) : name ∉ s'.exclusions {} := by
  rw [mem_exclusions, unaware.unconfigured]
  simp

/-- The selector that never saw the excluded candidates is left with the same ones. -/
theorem Unaware.sameLeft (unaware : s.Unaware (s.exclusions request) s')
    (without : ∀ id, id ∈ raw' ↔ id ∈ raw ∧ id ∉ s.exclusions request) :
    SameLeft (s.exclusions request) (s.remaining request raw) (s'.remaining {} raw') := by
  refine ⟨fun id => ?_, fun id hid => (mem_remaining.1 hid).2⟩
  rw [mem_remaining, mem_remaining, without id, and_iff_left (unaware.not_mem_exclusions id)]

/-- From then on the two selectors do the same, since neither asks about excluded modules. -/
theorem Unaware.endAlike_sift (unaware : s.Unaware (s.exclusions request) s')
    (respects : s.SiftRespects W) (admits : s.Admits request raw l k)
    (admits' : s'.Admits {} raw' l' k')
    (without : ∀ id, id ∈ raw' ↔ id ∈ raw ∧ id ∉ s.exclusions request)
    (world : W k.world k'.world) :
    Run.EndAlike W Eq ((s.sift request).exec l) ((s'.sift {}).exec l') := by
  refine Selector.endAlike_sift respects unaware.index unaware.inspector unaware.filters ?_
  rw [gather_eq_ok_iff.2 ⟨raw, k, admits, rfl, rfl⟩,
    gather_eq_ok_iff.2 ⟨raw', k', admits', rfl, rfl⟩]
  exact ⟨.ok (unaware.sameLeft without), world⟩

/-- A selection sifts as one that excludes nothing does to which the excluded modules are not
    listed and unknown. Both conclude from what they sifted, and before that they ask the same. -/
theorem traceless_of_select (enabled : s.settings.enabled = true) (respects : s.SiftRespects W)
    (unaware : s.Unaware (s.exclusions request) s')
    (listed : s.candidates.exec l = (.ok raw, k))
    (listed' : s'.candidates.exec l' =
      (.ok (raw.filter fun id => !(s.exclusions request).contains id), k'))
    (world : W k.world k'.world)
    (valid : ∀ name ∈ s.exclusions request, s.locator name = true → name ∈ raw)
    (left : ∃ id ∈ raw, id ∉ s.exclusions request) :
    Run.EndAlike W Eq ((s.sift request).exec l) ((s'.sift {}).exec l') ∧
      Concludes (s.exclusions request) ((s.sift request).exec l).1 ((s.select request).exec l).1 ∧
      Concludes ∅ ((s'.sift {}).exec l').1 ((s'.select {}).exec l').1 ∧
      ∀ h, (s.historyAfter request l h).inspected = (s'.historyAfter {} l' h).inspected ∧
        (s.historyAfter request l h).batches = (s'.historyAfter {} l' h).batches := by
  have without : ∀ id, id ∈ raw.filter (fun id => !(s.exclusions request).contains id) ↔
      id ∈ raw ∧ id ∉ s.exclusions request := by
    intro id
    simp [← Bool.not_eq_true]
  obtain ⟨id, hid, kept⟩ := left
  have admits : s.Admits request raw l k :=
    ⟨listed, List.ne_nil_of_mem hid, invalidExclusions_eq_nil_iff.2 valid⟩
  -- The other selection excludes nothing, so nothing can be invalid there.
  have admits' : s'.Admits {} _ l' k' :=
    ⟨listed', List.ne_nil_of_mem ((without id).2 ⟨hid, kept⟩),
      invalidExclusions_eq_nil_iff.2 fun name hname => (unaware.not_mem_exclusions name hname).elim⟩
  have enabled' := unaware.enabled.trans enabled
  have hnone : s'.exclusions {} = ∅ := NameSet.ext_mem fun name =>
    iff_of_false (unaware.not_mem_exclusions name) (NameSet.not_mem_empty name)
  refine ⟨unaware.endAlike_sift respects admits admits' without world,
    concludes_of_admits enabled admits, ?_, fun h => ?_⟩
  · rw [← hnone]
    exact concludes_of_admits enabled' admits'
  · -- What is announced differs in the exclusions, so histories are compared before that.
    obtain ⟨inspected, batches⟩ := historyAfter_of_enabled enabled request l h
    obtain ⟨inspected', batches'⟩ := historyAfter_of_enabled enabled' {} l' h
    have watched := unaware.watched.endAlike_sift respects.watched (admits.watched h)
      (admits'.watched h) without ⟨world, rfl⟩
    have same := watched.world.2
    rw [inspected, inspected', batches, batches', same]
    exact ⟨rfl, rfl⟩

/-- The excluded module cannot be read, and a candidate must both precede and follow it. -/
theorem traceless_of_select_of_unreadable :
    let declared : NameMap Metadata :=
      .ofList [("a", { after := NameSet.ofList ["b", "x"], before := NameSet.ofList ["x"] }),
        ("b", { before := NameSet.ofList ["x"] })]
    let s : Selector Unit :=
      { candidates := return ["x", "a", "b", "x"]
        inspector := (Inspector.ofTable declared).withUnreadable (NameSet.ofList ["x"])
        locator := .ofList ["x"]
        filters := [.rejecting (NameSet.ofList ["b"])]
        settings := { exclude := ["y"] } }
    let s' : Selector Unit :=
      { s with
        candidates := return ["a", "b"]
        inspector := .ofTable declared
        settings := {} }
    let request : Request := { modules := ["x"] }
    let l : Ledger Unit := ⟨(), []⟩
    s.settings.enabled = true ∧ s.SiftRespects Eq ∧ s.Unaware (s.exclusions request) s' ∧
      s.candidates.exec l = (.ok ["x", "a", "b", "x"], l) ∧
      s'.candidates.exec l = (.ok (["x", "a", "b", "x"].filter fun id =>
        !(s.exclusions request).contains id), l) ∧
      (∀ name ∈ s.exclusions request, s.locator name = true → name ∈ ["x", "a", "b", "x"]) ∧
      (∃ id ∈ ["x", "a", "b", "x"], id ∉ s.exclusions request) ∧
      ((s.select request).exec l).1 = .ok ⟨["a"], NameSet.ofList ["x", "y"], ["b"]⟩ ∧
      ((s'.select {}).exec l).1 = .ok ⟨["a"], ∅, ["b"]⟩ ∧
      Run.EndAlike Eq Eq ((s.sift request).exec l) ((s'.sift {}).exec l) ∧
      ∀ h, (s.historyAfter request l h).inspected = (s'.historyAfter {} l h).inspected ∧
        (s.historyAfter request l h).batches = (s'.historyAfter {} l h).batches := by
  intro declared s s' request l
  have hexclusions : s.exclusions request = NameSet.ofList ["x", "y"] := by
    simp only [s, request]
    cbv
  have respects : s.SiftRespects Eq :=
    { inspector := fun id => by
        show Run.Respects Eq (Inspector.withUnreadable _ _ id)
        unfold Inspector.withUnreadable
        split
        · exact .throw _
        · exact .pure rfl
      filters := List.forall_mem_singleton.2 fun ids => .pure rfl }
  have unaware : s.Unaware (s.exclusions request) s' :=
    { enabled := rfl
      index := rfl
      inspector := fun id hid => by
        have hreadable : ¬ (NameSet.ofList ["x"]).contains id = true := by
          rw [hexclusions, NameSet.mem_ofList] at hid
          rw [NameSet.contains_iff, NameSet.mem_ofList]
          exact fun h => hid (List.mem_cons.2 (.inl (List.mem_singleton.1 h)))
        exact (if_neg hreadable).symm
      filters := rfl
      unconfigured := rfl }
  have listed' : s'.candidates.exec l = (.ok (["x", "a", "b", "x"].filter fun id =>
      !(s.exclusions request).contains id), l) := by
    rw [hexclusions]
    rfl
  have valid : ∀ name ∈ s.exclusions request, s.locator name = true →
      name ∈ ["x", "a", "b", "x"] := by
    rw [hexclusions]
    decide
  have left : ∃ id ∈ ["x", "a", "b", "x"], id ∉ s.exclusions request := by
    rw [hexclusions]
    decide
  obtain ⟨ends, -, -, histories⟩ :=
    traceless_of_select rfl respects unaware rfl listed' rfl valid left
  refine ⟨rfl, respects, unaware, rfl, listed', valid, left, ?_, ?_, ends, histories⟩
  · simp only [s, request, l, declared]
    cbv
  · simp only [s', s, l, declared]
    cbv

end Selector

end Activation
