-- SUMMARY: Ordering candidates in a pass asks as if the pass remembered nothing.
import Activation.Pass
import Activation.Proofs.NameMap
import Activation.Proofs.Order.Survey

/-!
# Passes do not show

Candidates are ordered by reading the metadata of each of them once, so a pass that starts
without memory never recalls anything: the order in a pass is the order over a source that
inspects whenever it is asked (`exec_withLocal_order`). What the pass remembers at the end
are the candidates that are not in the index.
-/

namespace Activation

namespace Pass

variable {σ : Type} {index : Index} {inspector : Inspector σ} {cache : Cache} {l : Ledger σ}
  {id : ModuleId} {ids : List ModuleId}

/-- The source of a pass that remembers nothing. -/
def direct (index : Index) (inspector : Inspector σ) : Source σ where
  wasPrecomputed := index.wasProcessed
  metadata id :=
    if index.wasProcessed id then Run.ofExcept ((index.metadata id).mapError .malformed)
    else do
      Run.report [.inspecting id]
      inspector id

/-- What a pass remembers of a module that it has read. -/
def remember (index : Index) (cache : Cache) (id : ModuleId) (metadata : Metadata) : Cache :=
  if index.wasProcessed id then cache else cache.insert id metadata

/-- An inspection is logged first, and what it tells is remembered if it succeeds. -/
theorem exec_inspect :
    (inspect inspector id).exec (l.beside cache) =
      match (inspector id).exec (l.logged [.inspecting id]) with
      | (.ok metadata, m) => (.ok metadata, m.beside (cache.insert id metadata))
      | (.error e, m) => (.error e, m.beside cache) := by
  rw [inspect, Run.exec_report_bind, Ledger.beside_logged, Run.exec_bind, Run.exec_onFirst]
  rcases (inspector id).exec (l.logged [.inspecting id]) with ⟨e | metadata, m⟩
  · rfl
  · rfl

/-- Remembering one module leaves the modules after it unknown, as none of them is listed twice. -/
theorem find?_remember (index : Index) (metadata : Metadata)
    (unknown : ∀ id' ∈ id :: ids, cache.find? id' = none) (hid : id ∉ ids) :
    ∀ id' ∈ ids, (remember index cache id metadata).find? id' = none := by
  intro id' hid'
  have hne : id ≠ id' := fun e => hid (e ▸ hid')
  unfold remember
  split
  · exact unknown id' (List.mem_cons_of_mem _ hid')
  · rw [NameMap.find?_insert_of_ne hne]
    exact unknown id' (List.mem_cons_of_mem _ hid')

/-- A module that was unknown adds itself to the memory unless the index has it. -/
theorem size_remember {metadata : Metadata} (unknown : cache.find? id = none) :
    (remember index cache id metadata).size =
      cache.size + ([id].filter fun id => !index.wasProcessed id).length := by
  unfold remember
  split
  · rename_i indexed
    simp [indexed]
  · rename_i fresh
    simp [fresh, NameMap.size_insert unknown]

/-- A module that the pass does not know is read as if there were no memory. -/
theorem exec_metadata_source (unknown : cache.find? id = none) :
    ((source index inspector).metadata id).exec (l.beside cache) =
      match ((direct index inspector).metadata id).exec l with
      | (.ok metadata, m) => (.ok metadata, m.beside (remember index cache id metadata))
      | (.error e, m) => (.error e, m.beside cache) := by
  by_cases indexed : index.wasProcessed id
  · simp only [source, direct, remember, indexed, if_true, Run.exec_ofExcept]
    cases (index.metadata id).mapError MetadataFailure.malformed with
    | ok metadata => rfl
    | error e => rfl
  · have hlook : (lookUp inspector id).exec (l.beside cache) =
        (inspect inspector id).exec (l.beside cache) := by
      simp only [lookUp, Run.exec_bind, Run.exec_get, Ledger.world_beside, unknown]
    simp only [source, direct, remember, indexed, hlook, exec_inspect, Bool.false_eq_true, if_false]
    rfl

/-- Reading modules that the pass does not know, each of them once, is reading without memory.
    What was read and is not in the index is remembered. -/
theorem exec_mapM_declared_source (index : Index) (inspector : Inspector σ) (l : Ledger σ)
    (unknown : ∀ id ∈ ids, cache.find? id = none) (nodup : ids.Nodup) :
    ∃ after : Cache,
      (ids.mapM (Order.declared (source index inspector))).exec (l.beside cache) =
          (((ids.mapM (Order.declared (direct index inspector))).exec l).1,
            ((ids.mapM (Order.declared (direct index inspector))).exec l).2.beside after) ∧
        ∀ modules, ((ids.mapM (Order.declared (direct index inspector))).exec l).1 = .ok modules →
          after.size = cache.size + (ids.filter fun id => !index.wasProcessed id).length := by
  induction ids generalizing l cache with
  | nil => exact ⟨cache, rfl, fun _ _ => rfl⟩
  | cons id ids ih =>
    obtain ⟨hid, nodup⟩ := List.nodup_cons.1 nodup
    have hread : ((source index inspector).metadata id).exec (l.beside cache) = _ :=
      exec_metadata_source (unknown id List.mem_cons_self)
    rw [Order.exec_mapM_declared_cons, Order.exec_mapM_declared_cons, hread]
    rcases ((direct index inspector).metadata id).exec l with ⟨e | metadata, m⟩
    · exact ⟨cache, rfl, fun _ h => nomatch h⟩
    · obtain ⟨after, hrest, hsize⟩ := ih m (find?_remember index metadata unknown hid) nodup
      refine ⟨after, ?_, ?_⟩
      · dsimp only
        rw [hrest]
        rcases (ids.mapM (Order.declared (direct index inspector))).exec m with ⟨e | modules, k⟩
        · rfl
        · rfl
      · dsimp only
        rcases hrun : (ids.mapM (Order.declared (direct index inspector))).exec m with
          ⟨e | modules, k⟩
        · exact fun _ h => nomatch h
        · rintro _ -
          rw [hsize modules (by rw [hrun]), size_remember (unknown id List.mem_cons_self),
            Nat.add_assoc, ← List.length_append, ← List.filter_append, List.singleton_append]

/-- Candidates are ordered in a pass of their own as they are over a source that remembers
    nothing. What is remembered are the ones that are not in the index. -/
theorem exec_withLocal_order (index : Index) (inspector : Inspector σ)
    (candidates : List ModuleId) (l : Ledger σ) :
    ∃ cache : Cache,
      (Run.withLocal ∅ (Order.order (source index inspector) candidates)).exec l =
          (((Order.order (direct index inspector) candidates).exec l).1.map (·, cache),
            ((Order.order (direct index inspector) candidates).exec l).2) ∧
        ∀ ordered, ((Order.order (direct index inspector) candidates).exec l).1 = .ok ordered →
          cache.size = ((NameSet.ofList candidates).toList.filter fun id =>
            !index.wasProcessed id).length := by
  have nothing : ∀ id ∈ (NameSet.ofList candidates).toList, NameMap.find? (∅ : Cache) id = none :=
    fun _ _ => NameMap.find?_empty _
  obtain ⟨cache, hsurvey, hsize⟩ := exec_mapM_declared_source index inspector l nothing
    (NameSet.ofList candidates).nodup_toList
  refine ⟨cache, ?_, ?_⟩
  · rw [Run.exec_withLocal, Order.order, Order.order, Run.exec_bind, Run.exec_bind, Order.survey,
      Order.survey, hsurvey]
    rcases ((NameSet.ofList candidates).toList.mapM
      (Order.declared (direct index inspector))).exec l with ⟨e | modules, m⟩
    · rfl
    · dsimp only
      cases Order.arrange modules with
      | ok ids => rfl
      | error conflict => rfl
  · intro ordered hok
    obtain ⟨modules, k, hread, -⟩ := Run.exec_bind_eq_ok_iff.1 (Prod.ext hok rfl)
    rw [hsize modules (congrArg Prod.fst hread)]
    exact Nat.zero_add _

end Pass

end Activation
