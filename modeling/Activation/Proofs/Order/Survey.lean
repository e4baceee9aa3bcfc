-- SUMMARY: Reading the metadata of candidates, and the order as an arrangement of what was read.
import Activation.Proofs.InTurn
import Activation.Proofs.Order.Baseline
import Activation.Order

/-!
# Reading and ordering

`Reads` says that a source answers for modules one after the other, and with what. The
survey of candidates succeeds when the source answers for the distinct ones by
ascending name, and then the candidates are ordered by arranging what was read. It fails
with the first candidate for which the source does not answer.
-/

namespace Activation.Order

variable {σ : Type} {source : Source σ} {candidates ids : List ModuleId} {l m : Ledger σ}
  {modules : List Declared}

/-- A source is asked for the metadata of modules one after the other, and it answers for
    each of them. -/
inductive Reads (source : Source σ) :
    List ModuleId → Ledger σ → List Declared → Ledger σ → Prop
  | nil {l : Ledger σ} : Reads source [] l [] l
  | cons {id : ModuleId} {ids : List ModuleId} {metadata : Metadata} {modules : List Declared}
      {l k m : Ledger σ} (read : (source.metadata id).exec l = (.ok metadata, k))
      (rest : Reads source ids k modules m) :
      Reads source (id :: ids) l (⟨id, metadata⟩ :: modules) m

theorem Reads.map_id (h : Reads source ids l modules m) : modules.map (·.id) = ids := by
  induction h with
  | nil => rfl
  | cons _ _ ih => rw [List.map_cons, ih]

theorem Reads.byName (h : Reads source (NameSet.ofList candidates).toList l modules m) :
    ByName modules := by
  have hascending := (NameSet.ofList candidates).ascending
  rw [← h.map_id] at hascending
  exact List.pairwise_map.1 hascending

theorem Reads.mem_ids (h : Reads source (NameSet.ofList candidates).toList l modules m)
    {a : ModuleId} : a ∈ modules.map (·.id) ↔ a ∈ candidates := by
  rw [h.map_id, NameSet.mem_toList, NameSet.mem_ofList]

/-- The first failure ends a survey, and its id is told with it. -/
theorem exec_mapM_declared_cons {id : ModuleId} :
    ((id :: ids).mapM (declared source)).exec l =
      match (source.metadata id).exec l with
      | (.error failure, m) => (.error (.metadataRead id failure), m)
      | (.ok metadata, m) =>
        match (ids.mapM (declared source)).exec m with
        | (.error e, k) => (.error e, k)
        | (.ok modules, k) => (.ok (⟨id, metadata⟩ :: modules), k) := by
  simp only [List.mapM_cons, declared, bind_assoc, pure_bind, Run.exec_bind, Run.exec_mapFailure]
  rcases (source.metadata id).exec l with ⟨failure | metadata, m⟩
  · rfl
  · dsimp only [Except.mapError]
    rcases (ids.mapM (declared source)).exec m with ⟨e | modules, k⟩
    · rfl
    · rfl

/-- A survey succeeds exactly if the metadata of each id is read, from the ledger that the one
    before it left. -/
theorem mapM_declared_eq_ok_iff :
    (ids.mapM (declared source)).exec l = (.ok modules, m) ↔ Reads source ids l modules m := by
  induction ids generalizing l modules with
  | nil =>
    simp only [List.mapM_nil, Run.exec_pure, Prod.mk.injEq, Except.ok.injEq]
    constructor
    · rintro ⟨rfl, rfl⟩
      exact .nil
    · intro h
      cases h
      exact ⟨rfl, rfl⟩
  | cons id ids ih =>
    simp only [List.mapM_cons, declared, Run.exec_bind_eq_ok_iff, Run.exec_mapFailure_eq_ok_iff,
      Run.exec_pure, Prod.mk.injEq, Except.ok.injEq]
    constructor
    · rintro ⟨d, k, ⟨metadata, k', hread, rfl, rfl⟩, rest, k', hrest, rfl, rfl⟩
      exact .cons hread (ih.1 hrest)
    · intro h
      cases h with
      | cons hread hrest => exact ⟨_, _, ⟨_, _, hread, rfl, rfl⟩, _, _, ih.2 hrest, rfl, rfl⟩

theorem survey_eq_ok_iff :
    (survey source candidates).exec l = (.ok modules, m) ↔
      Reads source (NameSet.ofList candidates).toList l modules m :=
  mapM_declared_eq_ok_iff

theorem declared_eq_ok_iff {id : ModuleId} {d : Declared} :
    (declared source id).exec l = (.ok d, m) ↔
      ∃ metadata, (source.metadata id).exec l = (.ok metadata, m) ∧ d = ⟨id, metadata⟩ := by
  simp only [declared, Run.exec_bind_eq_ok_iff, Run.exec_mapFailure_eq_ok_iff, Run.exec_pure,
    Prod.mk.injEq, Except.ok.injEq]
  constructor
  · rintro ⟨metadata, k, hread, rfl, rfl⟩
    exact ⟨metadata, hread, rfl⟩
  · rintro ⟨metadata, hread, rfl⟩
    exact ⟨metadata, m, hread, rfl, rfl⟩

theorem declared_eq_error_iff {id : ModuleId} {e : SelectionFailure} :
    (declared source id).exec l = (.error e, m) ↔
      ∃ failure, (source.metadata id).exec l = (.error failure, m) ∧
        e = .metadataRead id failure := by
  simp only [declared, Run.exec_bind_eq_error_iff, Run.exec_mapFailure_eq_error_iff, Run.exec_pure,
    Prod.mk.injEq, reduceCtorEq, false_and, and_false, exists_false, or_false]

/-- The candidate at which the survey fails is the first, by name, that is not read. -/
theorem survey_eq_error_iff {e : SelectionFailure} :
    (survey source candidates).exec l = (.error e, m) ↔
      ∃ id k, Run.Turn source.metadata (NameSet.ofList candidates).toList l id k ∧
        ∃ failure, (source.metadata id).exec k = (.error failure, m) ∧
          e = .metadataRead id failure := by
  rw [survey, Run.exec_mapM_eq_error_iff]
  simp only [declared_eq_error_iff]
  refine exists_congr fun id => exists_congr fun k => and_congr_left fun _ => ?_
  constructor
  · refine Run.Turn.imp fun id l d k hread => ?_
    obtain ⟨metadata, hread, -⟩ := declared_eq_ok_iff.1 hread
    exact ⟨metadata, hread⟩
  · refine Run.Turn.imp fun id l metadata k hread => ?_
    exact ⟨_, declared_eq_ok_iff.2 ⟨metadata, hread, rfl⟩⟩

/-- Candidates whose metadata is read are ordered by arranging them. -/
theorem exec_order_of_reads (h : Reads source (NameSet.ofList candidates).toList l modules m) :
    (order source candidates).exec l =
      match arrange modules with
      | .ok out => (.ok out, { m with log := m.log ++ [.candidatesOrdered out.length] })
      | .error conflict => (.error (.cycleDetected conflict.first conflict.second), m) := by
  rw [order, Run.exec_bind, survey_eq_ok_iff.2 h]
  cases harrange : arrange modules with
  | ok out =>
    simp only [harrange]
    rfl
  | error conflict =>
    simp only [harrange]
    rfl

/-- Candidates are ordered exactly if all metadata is read and can be arranged, and then their
    number is logged. -/
theorem order_eq_ok_iff {out : List ModuleId} :
    (order source candidates).exec l = (.ok out, m) ↔
      ∃ modules k, Reads source (NameSet.ofList candidates).toList l modules k ∧
        arrange modules = .ok out ∧
        m = { k with log := k.log ++ [.candidatesOrdered out.length] } := by
  constructor
  · intro h
    obtain ⟨modules, k, hsurvey, -⟩ := Run.exec_bind_eq_ok_iff.1 h
    have hreads := survey_eq_ok_iff.1 hsurvey
    rw [exec_order_of_reads hreads] at h
    cases harrange : arrange modules with
    | ok out' =>
      rw [harrange] at h
      cases h
      exact ⟨modules, k, hreads, harrange, rfl⟩
    | error conflict =>
      rw [harrange] at h
      cases h
  · rintro ⟨modules, k, hreads, harrange, rfl⟩
    rw [exec_order_of_reads hreads, harrange]

/-- Ordering fails where metadata cannot be read, or else by the conflict of what was read, and
    logs nothing. -/
theorem order_eq_error_iff {e : SelectionFailure} :
    (order source candidates).exec l = (.error e, m) ↔
      (survey source candidates).exec l = (.error e, m) ∨
        ∃ modules conflict, Reads source (NameSet.ofList candidates).toList l modules m ∧
          arrange modules = .error conflict ∧
          e = .cycleDetected conflict.first conflict.second := by
  constructor
  · intro h
    rcases Run.exec_bind_eq_error_iff.1 h with hsurvey | ⟨modules, k, hsurvey, -⟩
    · exact .inl hsurvey
    · have hreads := survey_eq_ok_iff.1 hsurvey
      rw [exec_order_of_reads hreads] at h
      cases harrange : arrange modules with
      | ok out =>
        rw [harrange] at h
        cases h
      | error conflict =>
        rw [harrange] at h
        cases h
        exact .inr ⟨modules, conflict, hreads, harrange, rfl⟩
  · rintro (hsurvey | ⟨modules, conflict, hreads, harrange, rfl⟩)
    · exact Run.exec_bind_eq_error_iff.2 (.inl hsurvey)
    · rw [exec_order_of_reads hreads, harrange]

end Activation.Order
