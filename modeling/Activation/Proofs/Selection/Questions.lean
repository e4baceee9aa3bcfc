-- SUMMARY: What a selection asks its collaborators, phase by phase.
import Activation.Proofs.History
import Activation.Proofs.Selection.Agreement

/-!
# Questions of a selection

A selection over watched collaborators does what the selection does. Gathering enters nothing
into the history, settling the order enters inspections, sieving enters batches and announcing
enters notices, each up to the collaborator that fails.

Collaborators that respect a relation on their states also do so when they are watched, from
equal histories. So whatever makes two selections agree makes them ask the same.
-/

namespace Activation

variable {σ ε : Type}

/-! ## Watched collaborators -/

theorem Inspector.records_watched (inspector : Inspector σ) (id : ModuleId) :
    Run.Records (inspector.watched id) (inspector id) fun _ => { inspected := [id] } := by
  refine Run.Records.enter (fun h => ?_) (inspector id)
  show _ = History.mk _ (h.batches ++ []) (h.notices ++ [])
  rw [List.append_nil, List.append_nil]

theorem Filter.records_watched (filter : Filter σ) (place : Nat) (candidates : List ModuleId)
    (index : Index) :
    Run.Records ((filter.watched place).verdicts candidates index)
      (filter.verdicts candidates index) fun _ => { batches := [(place, candidates)] } := by
  refine Run.Records.enter (fun h => ?_) (filter.verdicts candidates index)
  show _ = History.mk (h.inspected ++ []) _ (h.notices ++ [])
  rw [List.append_nil, List.append_nil]

/-- A filter is entered once, also if its verdicts are too many or too few. -/
theorem Filter.records_judge (filter : Filter σ) (place : Nat) (candidates : List ModuleId)
    (index : Index) :
    Run.Records ((filter.watched place).judge candidates index) (filter.judge candidates index)
      fun _ => { batches := [(place, candidates)] } := by
  refine Run.Records.bind_silent ((filter.records_watched place candidates index).mapFailure _)
    fun verdicts => ?_
  by_cases count : verdicts.length = candidates.length
  · rw [if_pos count, if_pos count]
    exact .pure _
  · rw [if_neg count, if_neg count]
    exact .throw _

theorem Filter.silent_conclude (filters : List (Filter σ)) (sieved : Sieved) :
    Run.Silent (conclude (watchedAll filters) sieved) (conclude filters sieved) := by
  intro l h
  have hlength : (watchedAll filters).length = filters.length := List.length_mapIdx
  rw [exec_conclude, exec_conclude, History.append_empty, divided_congr hlength]
  rfl

/-- The filters of a chain are given one batch each, in turn. -/
theorem Filter.records_apply (filters : List (Filter σ)) (candidates : List ModuleId)
    (index : Index) :
    Run.Records (apply (watchedAll filters) candidates index) (apply filters candidates index)
      fun l =>
        { batches := (Run.asked (judge candidates index) filters l).mapIdx fun place _ =>
            (place, candidates) } := by
  rw [apply_eq_mapM_bind, apply_eq_mapM_bind]
  refine Run.Records.bind_silent ?_ fun verdicts => silent_conclude filters _
  refine (Run.Records.mapM History.additive_batches watched _ (fun place filter =>
    filter.records_judge place candidates index) filters).congr fun l => ?_
  rw [History.flatten_mapIdx_singleton]

theorem Listener.records_watched (listener : Listener σ) (place : Nat) (notice : Notice) :
    Run.Records ((listener.watched place).notify notice) (listener.notify notice)
      fun _ => { notices := [(place, notice)] } := by
  refine Run.Records.enter (fun h => ?_) (listener.notify notice)
  show _ = History.mk (h.inspected ++ []) (h.batches ++ []) _
  rw [List.append_nil, List.append_nil]

namespace Selector

variable (selector : Selector σ)

/-! ## What is asked -/

/-- Modules are inspected that are not in the index, in turn. -/
def inspections (left : List ModuleId) (l : Ledger σ) : History where
  inspected := (Run.asked (Order.declared selector.source) (NameSet.ofList left).toList l).filter
    fun id => !selector.index.wasProcessed id

def batches (ordered : List ModuleId) (l : Ledger σ) : History where
  batches := (Run.asked (Filter.judge ordered selector.index) selector.filters l).mapIdx
    fun place _ => (place, ordered)

def notices (notice : Notice) (l : Ledger σ) : History where
  notices := (Run.asked (Listener.tell notice) selector.listeners l).mapIdx
    fun place _ => (place, notice)

/-! ## What the phases enter -/

variable {selector} {request : Request} {left ordered : List ModuleId}

theorem silent_pass {stage : Stage} {modules : List ModuleId} :
    Run.Silent (pass stage modules : Run (σ × History) ε Unit) (pass stage modules) :=
  .report _

theorem exec_watched_candidates {l k : Ledger σ} {result : Except Fault (List ModuleId)}
    (listed : selector.candidates.exec l = (result, k)) (h : History) :
    selector.watched.candidates.exec (l.beside h) = (result, k.beside h) := by
  show (Run.onFirst selector.candidates).exec (l.beside h) = _
  rw [Run.exec_onFirst, listed]

/-- Candidates are listed, and exclusions checked, without a question to anybody watched. -/
theorem Admits.watched {raw : List ModuleId} {l k : Ledger σ}
    (admits : selector.Admits request raw l k) (h : History) :
    selector.watched.Admits request raw (l.beside h) (k.beside h) where
  listed := exec_watched_candidates admits.listed h
  nonempty := admits.nonempty
  valid := admits.valid

/-- Nobody with a history is asked while candidates are gathered. -/
theorem silent_gather :
    Run.Silent (selector.watched.gather request) (selector.gather request) := by
  intro l h
  rw [History.append_empty]
  rcases hgather : (selector.gather request).exec l with ⟨e | left, m⟩
  · rcases gather_eq_error_iff.1 hgather with hdiscover | ⟨raw, k, listed, some, invalid, rfl, rfl⟩
    · refine gather_eq_error_iff.2 (.inl (discover_eq_error_iff.2 ?_))
      rcases discover_eq_error_iff.1 hdiscover with ⟨fault, failed, rfl⟩ | ⟨none, rfl⟩
      · exact .inl ⟨fault, exec_watched_candidates failed h, rfl⟩
      · exact .inr ⟨exec_watched_candidates none h, rfl⟩
    · exact gather_eq_error_iff.2 (.inr ⟨raw, k.beside h, exec_watched_candidates listed h, some,
        invalid, rfl, rfl⟩)
  · obtain ⟨raw, k, admits, rfl, rfl⟩ := gather_eq_ok_iff.1 hgather
    exact gather_eq_ok_iff.2 ⟨raw, k.beside h, admits.watched h, rfl, rfl⟩

/-- An inspection is entered for a module that is not in the index. -/
theorem records_metadata (id : ModuleId) :
    Run.Records (selector.watched.source.metadata id) (selector.source.metadata id) fun _ =>
      { inspected := if selector.index.wasProcessed id then [] else [id] } := by
  by_cases indexed : selector.index.wasProcessed id
  · simp only [source, Pass.direct, watched, indexed, if_true]
    exact Run.Silent.ofExcept _
  · simp only [source, Pass.direct, watched, indexed]
    exact (Run.Silent.report _).bind fun _ => selector.inspector.records_watched id

/-- Inspections are entered by name, up to the first failure. -/
theorem records_survey :
    Run.Records (Order.survey selector.watched.source left) (Order.survey selector.source left)
      (selector.inspections left) := by
  have hdeclared : ∀ (_ : Nat) id, Run.Records (Order.declared selector.watched.source id)
      (Order.declared selector.source id) fun _ =>
        { inspected := if selector.index.wasProcessed id then [] else [id] } := fun _ id =>
    Run.Records.bind_silent ((records_metadata id).mapFailure _) fun _ => .pure _
  have hall := Run.Records.mapM History.additive_inspected (fun _ id => id) _ hdeclared
    (NameSet.ofList left).toList
  rw [History.mapIdx_const, List.map_id'] at hall
  refine hall.congr fun l => ?_
  rw [History.mapIdx_const, History.flatten_map_unless]
  rfl

theorem records_order :
    Run.Records (Order.order selector.watched.source left) (Order.order selector.source left)
      (selector.inspections left) := by
  apply Run.Records.bind_silent records_survey
  intro modules
  cases Order.arrange modules with
  | ok ids => exact Run.Records.bind_silent (Run.Silent.report _) fun _ => .pure _
  | error conflict => exact .throw _

theorem records_settle :
    Run.Records (selector.watched.settle left) (selector.settle left)
      (selector.inspections left) := by
  -- The memory of the pass does not show, so only the source without memory is watched.
  rw [settle_eq_order_bind, settle_eq_order_bind]
  apply Run.Records.bind_silent records_order
  exact fun ordered => Run.Records.bind_silent (Run.Silent.report _) fun _ => .pure _

theorem records_sieve :
    Run.Records (selector.watched.sieve ordered) (selector.sieve ordered)
      (selector.batches ordered) :=
  Run.Records.bind_silent (Filter.records_apply selector.filters ordered selector.index)
    fun _ => Run.Records.bind_silent silent_pass fun _ => .pure _

theorem records_announce {exclusions : NameSet} {sieved : Sieved} :
    Run.Records (selector.watched.announce exclusions sieved) (selector.announce exclusions sieved)
      (selector.notices ⟨sieved.kept, exclusions⟩) := by
  unfold announce Listener.tellAll
  rw [Run.forM_eq_mapM_bind, Run.forM_eq_mapM_bind]
  refine Run.Records.bind_silent ?_ fun _ => ?_
  · refine Run.Records.bind_silent ?_ fun _ => .pure _
    have htell : ∀ (place : Nat) (listener : Listener σ),
        Run.Records (Listener.tell ⟨sieved.kept, exclusions⟩ (listener.watched place))
          (Listener.tell ⟨sieved.kept, exclusions⟩ listener) fun _ =>
            { notices := [(place, ⟨sieved.kept, exclusions⟩)] } := fun place listener =>
      (listener.records_watched place _).mapFailure _
    refine (Run.Records.mapM History.additive_notices Listener.watched _ htell
      selector.listeners).congr fun l => ?_
    rw [History.flatten_mapIdx_singleton]
    rfl
  · refine Run.Records.bind_silent silent_pass fun _ => ?_
    exact Run.Records.bind_silent silent_pass fun _ => .pure _

/-! ## Selections -/

/-- All that a selection asks that is switched on. Each phase goes on from what the one before
    it gave, if it gave anything. -/
def questions (selector : Selector σ) (request : Request) : Ledger σ → History :=
  Run.entriesAfter (selector.gather request) fun left l =>
    selector.inspections left l ++ Run.entriesAfter (selector.settle left) (fun ordered l =>
      selector.batches ordered l ++ Run.entriesAfter (selector.sieve ordered)
        (fun sieved => selector.notices ⟨sieved.kept, selector.exclusions request⟩) l) l

/-- The questions of a selection are those of its phases, as far as it gets. -/
theorem records_resolve :
    Run.Records (selector.watched.resolve request) (selector.resolve request)
      (selector.questions request) := by
  rw [resolve_eq_sift_bind, resolve_eq_sift_bind]
  simp only [sift, bind_assoc]
  refine silent_gather.bind fun left => ?_
  refine records_settle.bind fun ordered => ?_
  exact records_sieve.bind fun sieved => records_announce

/-- Nobody is asked by a selection that is switched off. -/
theorem records_select :
    Run.Records (selector.watched.select request) (selector.select request) fun l =>
      if selector.settings.enabled then selector.questions request l else ∅ := by
  by_cases enabled : selector.settings.enabled = true
  · have enabled' : selector.watched.settings.enabled = true := enabled
    rw [select_of_enabled enabled, select_of_enabled enabled']
    simp only [enabled, if_true]
    exact records_resolve
  · have enabled' : ¬ selector.watched.settings.enabled = true := enabled
    rw [select, select, if_neg enabled, if_neg enabled']
    simp only [enabled]
    exact Run.Records.bind_silent (Run.Silent.report _) fun _ => .pure _

/-- The history after a selection from a ledger and a history. -/
def historyAfter (selector : Selector σ) (request : Request) (l : Ledger σ) (h : History) :
    History :=
  ((selector.watched.select request).exec (l.beside h)).2.world.2

end Selector

/-! ## Selections that ask the same -/

/-- Related states, and the same history. -/
def Alongside (W : σ → σ → Prop) (w w' : σ × History) : Prop := W w.1 w'.1 ∧ w.2 = w'.2

section Alongside

variable {α β : Type} {W : σ → σ → Prop} {R : α → β → Prop}

theorem Run.EndAlike.alongside {x : Run σ ε α} {y : Run σ ε β} {l l' : Ledger σ}
    (ends : Run.EndAlike W R (x.exec l) (y.exec l')) (h : History) :
    Run.EndAlike (Alongside W) R ((Run.onFirst x).exec (l.beside h))
      ((Run.onFirst y).exec (l'.beside h)) :=
  ⟨ends.agree, ends.world, rfl⟩

theorem Run.Related.watched {x : Run σ ε α} {y : Run σ ε β} (related : Run.Related W R x y)
    (change : History → History) :
    Run.Related (Alongside W) R (do History.enter change; Run.onFirst x)
      (do History.enter change; Run.onFirst y) := by
  rintro l l' ⟨world, same⟩
  rw [Run.exec_enter_bind, Run.exec_enter_bind, ← same]
  exact (related l.first l'.first world).alongside (change l.world.2)

end Alongside

namespace Selector

variable {W : σ → σ → Prop} {s s' : Selector σ} {request request' : Request} {l l' : Ledger σ}

theorem SiftRespects.watched (respects : s.SiftRespects W) :
    s.watched.SiftRespects (Alongside W) where
  inspector id := (respects.inspector id).watched _
  filters := by
    intro filter hfilter ids
    obtain ⟨place, hplace, rfl⟩ := List.mem_mapIdx.1 hfilter
    exact (respects.filters _ (List.getElem_mem hplace) ids).watched _

theorem Respects.watched (respects : s.Respects W) : s.watched.Respects (Alongside W) where
  toSiftRespects := respects.toSiftRespects.watched
  listeners := by
    intro listener hlistener notice
    obtain ⟨place, hplace, rfl⟩ := List.mem_mapIdx.1 hlistener
    exact (respects.listeners _ (List.getElem_mem hplace) notice).watched _

theorem Twin.watched (twin : s.Twin s') : s.watched.Twin s'.watched where
  index := twin.index
  inspector := congrArg Inspector.watched twin.inspector
  locator := twin.locator
  filters := congrArg Filter.watchedAll twin.filters
  listeners := congrArg Listener.watchedAll twin.listeners
  enabled := twin.enabled

end Selector

end Activation
