-- SUMMARY: The log tells exactly how far a selection got, and how many modules were left.
import Activation.Proofs.Order.Arrangement
import Activation.Proofs.Selection.Milestones
import Activation.Rehearsal
import Mathlib

/-!
# Progress of a selection

A selection writes to the log after every stage, with the number of modules that are left. So
its own events tell how far it got: the stages that they report are the first ones of all
stages, and how many they are depends only on how the selection ended. The numbers never
increase. That all metadata is read is reported when the candidates are put in order, and
never otherwise.

Own events are those of the selection whose collaborators are set apart. They are read off the
milestones of its phases, one case for each phase in which a selection may end.
-/

namespace Activation.Selector

variable {σ : Type} {s : Selector σ} {request : Request} {left ordered : List ModuleId}

/-! ## Lists of modules -/

theorem nodup_remaining (raw : List ModuleId) : (s.remaining request raw).Nodup :=
  (Candidates.nodup_distinct raw).filter _

/-- Nothing is lost and nothing is doubled when candidates are put in order. -/
theorem length_of_settle {l m : Ledger σ} (nodup : left.Nodup)
    (h : (s.settle left).exec l = (.ok ordered, m)) : ordered.length = left.length := by
  obtain ⟨modules, k, hreads, harrange, -⟩ := settle_eq_ok_iff.1 h
  have hperm : ordered.Perm left := by
    rw [List.perm_ext_iff_of_nodup (Order.nodup_of_arrange hreads.byName harrange) nodup]
    intro a
    rw [Order.mem_of_arrange harrange, hreads.mem_ids]
  exact hperm.length_eq

theorem length_kept_of_sieve {sieved : Sieved} {l m : Ledger σ}
    (h : (s.sieve ordered).exec l = (.ok sieved, m)) : sieved.kept.length ≤ ordered.length := by
  obtain ⟨verdicts, k, -, rfl, -⟩ := sieve_eq_ok_iff.1 h
  exact (Sieved.kept_sublist ordered _).length_le

/-! ## How far a selection got -/

/-- How many stages are complete when a selection ends. -/
def stagesPassed : Outcome → Nat
  | .error (.candidateSource _) | .error .emptyCandidatePool => 0
  | .error (.invalidExclusion _) => 2
  | .error (.metadataRead ..) | .error (.cycleDetected ..) => 3
  | .error (.filterFailed ..) | .error (.verdictCount ..) => 4
  | .error (.listenerFailed ..) => 5
  | .ok _ => 7

theorem stagesPassed_of_settle {l m : Ledger σ} {e : SelectionFailure}
    (h : (s.settle left).exec l = (.error e, m)) : stagesPassed (.error e) = 3 := by
  obtain ⟨id, failure, rfl⟩ | ⟨first, second, rfl⟩ := failure_of_settle h
  · rfl
  · rfl

theorem stagesPassed_of_sieve {l m : Ledger σ} {e : SelectionFailure}
    (h : (s.sieve ordered).exec l = (.error e, m)) : stagesPassed (.error e) = 4 := by
  obtain ⟨filter, k, -, misjudges⟩ := sieve_eq_error_iff.1 h
  cases misjudges with
  | failed => rfl
  | miscounted => rfl

theorem stagesPassed_of_announce {exclusions : NameSet} {sieved : Sieved} {l m : Ledger σ}
    {e : SelectionFailure} (h : (s.announce exclusions sieved).exec l = (.error e, m)) :
    stagesPassed (.error e) = 5 := by
  obtain ⟨listener, k, -, fault, -, rfl⟩ := announce_eq_error_iff.1 h
  rfl

/-- What a selection saw, as far as it got: the candidates that were listed and the ones that were
    kept. -/
structure Reached (s : Selector σ) (request : Request) (l : Ledger σ) (outcome : Outcome)
    (raw kept : List ModuleId) : Prop where
  listed : 0 < stagesPassed outcome → (s.candidates.exec l).1 = .ok raw
  /-- More than three stages are complete exactly when the candidates are put in order. -/
  ordered : 3 < stagesPassed outcome ↔
    ∃ ordered, (Run.exec (do s.settle (← s.gather request)) l).1 = .ok ordered
  sifted : 4 < stagesPassed outcome →
    ∃ removed, ((s.sift request).exec l).1 = .ok ⟨kept, removed⟩
  selected : ∀ sel, outcome = .ok sel → sel.modules = kept

/-- The milestones of a selection that succeeds. -/
def chronology (s : Selector σ) (request : Request) (raw kept : List ModuleId) : List Event :=
  [.stageComplete .loaded raw.length,
    .stageComplete .deduplicated (Candidates.distinct raw).length,
    .stageComplete .exclusionsApplied (s.remaining request raw).length,
    .metadataRead (s.unindexed (s.remaining request raw)).length,
    .stageComplete .ordered (s.remaining request raw).length,
    .stageComplete .filtered kept.length,
    .stageComplete .notified kept.length,
    .stageComplete .done kept.length]

/-- How many milestones a selection writes that ends so. -/
def milestonesPassed (outcome : Outcome) : Nat :=
  if 3 < stagesPassed outcome then stagesPassed outcome + 1 else stagesPassed outcome

section Cases

variable {l m : Ledger σ} {raw : List ModuleId} {k : Ledger σ} {e : SelectionFailure}

theorem gathered_of_admits (admits : s.Admits request raw l k) :
    s.gathered request raw =
      [.stageComplete .loaded raw.length,
        .stageComplete .deduplicated (Candidates.distinct raw).length,
        .stageComplete .exclusionsApplied (s.remaining request raw).length] := by
  rw [gathered, if_neg admits.nonempty, if_pos admits.valid]
  rfl

/-- The milestones of a selection that ended so tell what it saw. -/
def Tells (s : Selector σ) (request : Request) (l : Ledger σ) (outcome : Outcome)
    (marks : List Event) : Prop :=
  ∃ raw kept, s.Reached request l outcome raw kept ∧
    marks = (s.chronology request raw kept).take (milestonesPassed outcome) ∧
    kept.length ≤ (s.remaining request raw).length

/-- A failure before the ordered stage keeps nothing. -/
theorem reached_of_unordered (early : stagesPassed (.error e) ≤ 3)
    (unordered : ∀ ordered,
      (Run.exec (do s.settle (← s.gather request)) l).1 ≠ .ok ordered)
    (listed : 0 < stagesPassed (.error e) → (s.candidates.exec l).1 = .ok raw) :
    s.Reached request l (.error e) raw [] where
  listed := listed
  ordered := iff_of_false (by omega) fun ⟨ordered, h⟩ => unordered ordered h
  sifted := by omega
  selected := nofun

/-- A selection that ends before metadata is read has reported two stages if an exclusion is
    invalid, and else none. -/
theorem tells_of_ungathered (h : (s.gather request).exec l = (.error e, m)) :
    s.Tells request l (.error e)
      (Run.marksAfter s.candidates (fun raw _ => s.gathered request raw) l) := by
  have unordered : ∀ ordered,
      (Run.exec (do s.settle (← s.gather request)) l).1 ≠ .ok ordered := by
    simp [Run.exec_bind, h]
  rcases gather_eq_error_iff.1 h with hdiscover | ⟨raw, k, listed, some, invalid, rfl, rfl⟩
  · rcases discover_eq_error_iff.1 hdiscover with ⟨fault, failed, rfl⟩ | ⟨listed, rfl⟩
    · refine ⟨[], [], reached_of_unordered (Nat.zero_le 3) unordered nofun, ?_, Nat.zero_le _⟩
      rw [Run.marksAfter_of_error failed]
      rfl
    · refine ⟨[], [], reached_of_unordered (Nat.zero_le 3) unordered nofun, ?_, Nat.zero_le _⟩
      rw [Run.marksAfter_of_ok listed]
      rfl
  · refine ⟨raw, [], reached_of_unordered (by simp [stagesPassed]) unordered fun _ =>
      congrArg Prod.fst listed, ?_, Nat.zero_le _⟩
    rw [Run.marksAfter_of_ok listed, gathered, if_neg some, if_neg invalid]
    rfl

/-- A selection that ends in the ordering has reported three stages. -/
theorem tells_of_unsettled (admits : s.Admits request raw l k)
    (h : (s.settle (s.remaining request raw)).exec (s.readingStart request raw k) =
      (.error e, m)) :
    s.Tells request l (.error e) (s.gathered request raw) := by
  have hgather := gather_eq_ok_iff.2 ⟨raw, k, admits, rfl, rfl⟩
  have hpassed := stagesPassed_of_settle h
  refine ⟨raw, [], reached_of_unordered hpassed.le ?_ fun _ => congrArg Prod.fst admits.listed,
    ?_, Nat.zero_le _⟩
  · simp [Run.exec_bind, hgather, h]
  · rw [gathered_of_admits admits, milestonesPassed, hpassed]
    rfl

section Settled

variable {start told : Ledger σ} {sieved : Sieved}

/-- A selection that ends in a filter has reported the ordered stage as the last one. -/
theorem tells_of_unsieved (admits : s.Admits request raw l k)
    (settled : (s.settle (s.remaining request raw)).exec (s.readingStart request raw k) =
      (.ok ordered, start))
    (h : (s.sieve ordered).exec start = (.error e, m)) :
    s.Tells request l (.error e) (s.gathered request raw ++
      [.metadataRead (s.unindexed (s.remaining request raw)).length,
        .stageComplete .ordered ordered.length]) := by
  have hgather := gather_eq_ok_iff.2 ⟨raw, k, admits, rfl, rfl⟩
  have hpassed := stagesPassed_of_sieve h
  refine ⟨raw, [], ?_, ?_, Nat.zero_le _⟩
  · exact
      { listed := fun _ => congrArg Prod.fst admits.listed
        ordered := iff_of_true (by omega) ⟨ordered, by simp [Run.exec_bind, hgather, settled]⟩
        sifted := by omega
        selected := nofun }
  · rw [gathered_of_admits admits, milestonesPassed, hpassed,
      length_of_settle (nodup_remaining raw) settled]
    rfl

/-- After the filters, only the listeners can fail. -/
theorem tells_of_sieved (admits : s.Admits request raw l k)
    (settled : (s.settle (s.remaining request raw)).exec (s.readingStart request raw k) =
      (.ok ordered, start))
    (h : (s.sieve ordered).exec start = (.ok sieved, told)) {outcome : Outcome}
    (passed : 4 < stagesPassed outcome)
    (selected : ∀ sel, outcome = .ok sel → sel.modules = sieved.kept) :
    s.Tells request l outcome
      ((s.chronology request raw sieved.kept).take (milestonesPassed outcome)) := by
  have hgather := gather_eq_ok_iff.2 ⟨raw, k, admits, rfl, rfl⟩
  refine ⟨raw, sieved.kept, ?_, rfl, ?_⟩
  · exact
      { listed := fun _ => congrArg Prod.fst admits.listed
        ordered := iff_of_true (by omega) ⟨ordered, by simp [Run.exec_bind, hgather, settled]⟩
        sifted := fun _ => ⟨sieved.removed, by simp [sift, Run.exec_bind, hgather, settled, h]⟩
        selected }
  · exact (length_kept_of_sieve h).trans_eq (length_of_settle (nodup_remaining raw) settled)

end Settled

end Cases

/-- Each way for a selection to end has its own number of stages. -/
theorem tells_of_select (enabled : s.settings.enabled = true) (request : Request)
    (l : Ledger σ) :
    s.Tells request l ((s.select request).exec l).1 (s.marks request l) := by
  rw [select_of_enabled enabled, resolve_eq_sift_bind]
  simp only [sift, bind_assoc]
  unfold marks
  rcases hgather : (s.gather request).exec l with ⟨e | left, m⟩
  · rw [Run.exec_bind, hgather, Run.marksAfter_of_error hgather, List.append_nil]
    exact tells_of_ungathered hgather
  obtain ⟨raw, k, admits, rfl, rfl⟩ := gather_eq_ok_iff.1 hgather
  rw [Run.exec_bind, hgather, Run.marksAfter_of_ok hgather, Run.marksAfter_of_ok admits.listed]
  dsimp only
  rcases hsettle : (s.settle (s.remaining request raw)).exec (s.readingStart request raw k) with
    ⟨e | ordered, start⟩
  · rw [Run.exec_bind, hsettle, Run.marksAfter_of_error hsettle, Run.marksAfter_of_error hsettle,
      List.append_nil, List.append_nil]
    exact tells_of_unsettled admits hsettle
  rw [Run.exec_bind, hsettle, Run.marksAfter_of_ok hsettle, Run.marksAfter_of_ok hsettle]
  dsimp only
  rcases hsieve : (s.sieve ordered).exec start with ⟨e | sieved, told⟩
  · rw [Run.exec_bind, hsieve, Run.marksAfter_of_error hsieve, Run.marksAfter_of_error hsieve,
      List.append_nil, List.append_nil]
    exact tells_of_unsieved admits hsettle hsieve
  rw [Run.exec_bind, hsieve, Run.marksAfter_of_ok hsieve, Run.marksAfter_of_ok hsieve,
    gathered_of_admits admits, length_of_settle (nodup_remaining raw) hsettle]
  dsimp only
  rcases hannounce : (s.announce (s.exclusions request) sieved).exec told with ⟨e | sel, last⟩
  · have hpassed := stagesPassed_of_announce hannounce
    have hselected : ∀ sel, (.error e : Outcome) = .ok sel → sel.modules = sieved.kept := by simp
    have htells := tells_of_sieved admits hsettle hsieve hpassed.ge hselected
    rw [milestonesPassed, hpassed] at htells
    rw [Run.marksAfter_of_error hannounce]
    exact htells
  · obtain ⟨units, k', -, rfl, -⟩ := announce_eq_ok_iff.1 hannounce
    rw [Run.marksAfter_of_ok hannounce]
    refine tells_of_sieved admits hsettle hsieve (by simp [stagesPassed]) fun sel h => ?_
    cases h
    rfl

/-! ## The number of modules -/

theorem length_eq_card {ids : List ModuleId} {modules : Finset ModuleId} (nodup : ids.Nodup)
    (h : ∀ a, a ∈ ids ↔ a ∈ modules) : ids.length = modules.card := by
  rw [← List.toFinset_card_of_nodup nodup]
  congr 1
  ext a
  rw [List.mem_toFinset, h]

/-- The number of modules that are left after a stage: of those that were listed, of the distinct
    ones, of those that are not excluded, and of those that are kept. -/
def modulesAt (s : Selector σ) (request : Request) (raw kept : List ModuleId) : Stage → Nat
  | .loaded => raw.length
  | .deduplicated => raw.toFinset.card
  | .exclusionsApplied | .ordered => {id ∈ raw.toFinset | id ∉ s.exclusions request}.card
  | .filtered | .notified | .done => kept.length

/-- The number of candidates that are not excluded and not in the index. -/
def inspectedAmong (s : Selector σ) (request : Request) (raw : List ModuleId) : Nat :=
  {id ∈ raw.toFinset | id ∉ s.exclusions request ∧ s.index.wasProcessed id = false}.card

variable {raw kept : List ModuleId}

theorem length_remaining : (s.remaining request raw).length =
    {id ∈ raw.toFinset | id ∉ s.exclusions request}.card :=
  length_eq_card (nodup_remaining raw) fun a => by simp

theorem chronology_eq :
    s.chronology request raw kept =
      [.stageComplete .loaded (s.modulesAt request raw kept .loaded),
        .stageComplete .deduplicated (s.modulesAt request raw kept .deduplicated),
        .stageComplete .exclusionsApplied (s.modulesAt request raw kept .exclusionsApplied),
        .metadataRead (s.inspectedAmong request raw),
        .stageComplete .ordered (s.modulesAt request raw kept .ordered),
        .stageComplete .filtered (s.modulesAt request raw kept .filtered),
        .stageComplete .notified (s.modulesAt request raw kept .notified),
        .stageComplete .done (s.modulesAt request raw kept .done)] := by
  have hdistinct : (Candidates.distinct raw).length = raw.toFinset.card :=
    length_eq_card (Candidates.nodup_distinct raw) fun a => by simp
  have hunindexed : (s.unindexed (s.remaining request raw)).length =
      s.inspectedAmong request raw :=
    length_eq_card ((NameSet.nodup_toList _).filter _) fun a => by simp [unindexed, and_assoc]
  simp only [chronology, hdistinct, length_remaining, hunindexed, modulesAt]

/-- No stage adds modules. -/
theorem decreasing_modulesAt (fewer : kept.length ≤ (s.remaining request raw).length) :
    (Stage.all.map fun stage => (stage, s.modulesAt request raw kept stage)).Pairwise
      fun earlier later => later.2 ≤ earlier.2 := by
  have hdistinct : raw.toFinset.card ≤ raw.length := raw.toFinset_card_le
  have hremaining : {id ∈ raw.toFinset | id ∉ s.exclusions request}.card ≤ raw.toFinset.card :=
    Finset.card_filter_le _ _
  rw [length_remaining] at fewer
  simp only [modulesAt, Stage.all, List.map_cons, List.map_nil, List.pairwise_cons, List.mem_cons,
    List.not_mem_nil, or_false, forall_eq_or_imp, forall_eq, and_self, and_self_left, Std.le_refl,
    true_and, IsEmpty.forall_iff, implies_true, List.Pairwise.nil, and_true]
  omega

/-- The log tells how far a selection got: the events that it wrote itself report the stages up
    to the one that failed, each with the number of modules that were left. -/
structure Progress (s : Selector σ) (request : Request) (l : Ledger σ) (outcome : Outcome)
    (raw kept : List ModuleId) (own : List Event) : Prop
    extends s.Reached request l outcome raw kept where
  stages : own.filterMap Event.stage? =
    (Stage.all.take (stagesPassed outcome)).map fun stage =>
      (stage, s.modulesAt request raw kept stage)
  decreasing : (own.filterMap Event.stage?).Pairwise fun earlier later => later.2 ≤ earlier.2
  inspected : own.filterMap Event.inspected? =
    if 3 < stagesPassed outcome then [s.inspectedAmong request raw] else []

/-- Stages and the number of inspections are picked from the milestones. -/
theorem Progress.of_milestones {l : Ledger σ} {outcome : Outcome} {own : List Event}
    (reached : s.Reached request l outcome raw kept)
    (marks : milestones own = (s.chronology request raw kept).take (milestonesPassed outcome))
    (fewer : kept.length ≤ (s.remaining request raw).length) :
    s.Progress request l outcome raw kept own := by
  have hstages : own.filterMap Event.stage? =
      (Stage.all.take (stagesPassed outcome)).map fun stage =>
        (stage, s.modulesAt request raw kept stage) := by
    rw [← filterMap_milestones (fun e h _ => h), marks, chronology_eq]
    cases outcome with
    | ok sel => rfl
    | error e => cases e with | _ => rfl
  have hinspected : own.filterMap Event.inspected? =
      if 3 < stagesPassed outcome then [s.inspectedAmong request raw] else [] := by
    rw [← filterMap_milestones (fun e _ h => h), marks, chronology_eq]
    cases outcome with
    | ok sel => rfl
    | error e => cases e with | _ => rfl
  refine { reached with stages := hstages, inspected := hinspected, decreasing := ?_ }
  rw [hstages]
  exact (decreasing_modulesAt fewer).sublist ((List.take_sublist _ _).map _)

/-- A selection that is switched on tells by the events that it writes itself how far it got,
    whatever its collaborators write. If they write no such events, the log has no others. -/
theorem progress_of_select (enabled : s.settings.enabled = true) (request : Request)
    (l : Ledger σ) :
    let ends := (s.select request).exec l
    let apart := (s.apart.select request).exec l.apart
    apart.1 = ends.1 ∧ apart.2.whole = ends.2 ∧
      (s.Reticent → milestones ends.2.log = milestones l.log ++ milestones apart.2.own) ∧
      ∃ raw kept, s.Progress request l ends.1 raw kept apart.2.own := by
  intro ends apart
  obtain ⟨result, whole, own, log⟩ := writes_select enabled request l.apart
  rw [Ledger.whole_apart] at result whole own log
  obtain ⟨raw, kept, reached, hmarks, fewer⟩ := tells_of_select enabled request l
  refine ⟨result, whole, fun reticent => ?_, raw, kept, ?_⟩
  · rw [log reticent, own, Ledger.own_apart, milestones_nil, List.nil_append]
  · exact .of_milestones reached (own.trans hmarks) fewer

/-- Candidates are listed by a selection that writes all its stages to the same log. The
    selection they are for excludes one as a module, one by name and one by its settings. It ends
    with its listener, and tells so. -/
theorem progress_of_select_of_nested :
    let inner : Selector Unit := { candidates := return ["m"] }
    let s : Selector Unit :=
      { candidates := do
          let sel ← (inner.select {}).mapFailure fun e => .reported e.message
          return sel.modules ++ ["x", "a", "y", "b", "m"]
        index := Index.empty.record "m" {}
        filters := [.rejecting (NameSet.ofList ["m"])]
        listeners := [.failing "is down"]
        settings := { exclude := ["b"] } }
    let request : Request := { modules := ["x"], names := ["y"] }
    let l : Ledger Unit := ⟨(), []⟩
    let ends := (s.select request).exec l
    let apart := (s.apart.select request).exec l.apart
    s.settings.enabled = true ∧
      ends.1 = .error (.listenerFailed "failing" (.reported "is down")) ∧
      apart.1 = ends.1 ∧ apart.2.whole = ends.2 ∧
      (ends.2.log.filterMap Event.stage?).length = 12 ∧
      apart.2.own.filterMap Event.stage? =
        [(.loaded, 6), (.deduplicated, 5), (.exclusionsApplied, 2), (.ordered, 2),
          (.filtered, 1)] ∧
      apart.2.own.filterMap Event.inspected? = [1] ∧
      ∃ raw kept, s.Progress request l ends.1 raw kept apart.2.own := by
  intro inner s request l ends apart
  have enabled : s.settings.enabled = true := rfl
  obtain ⟨result, whole, -, progress⟩ := progress_of_select enabled request l
  refine ⟨enabled, ?_, result, whole, ?_, ?_, ?_, progress⟩
  · simp only [ends, s, inner, request, l]
    cbv
  · simp only [ends, s, inner, request, l]
    cbv
  · simp only [apart, s, inner, request, l]
    cbv
  · simp only [apart, s, inner, request, l]
    cbv

end Activation.Selector
