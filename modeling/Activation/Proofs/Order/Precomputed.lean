-- SUMMARY: Metadata that is recorded in the index gives the order that inspecting it would give.
import Activation.Proofs.Index.Recording
import Activation.Proofs.Selection.Questions
import Activation.Rehearsal
import Mathlib

/-!
# Precomputed metadata

An order depends on what is answered for each candidate and not on who answers. So if an
inspector answers as a map, its metadata may be recorded ahead for any modules: the order is
the one without the index, except that names of recorded modules are trimmed. What recording
saves is inspecting these modules.
-/

namespace Activation

variable {σ ε α β : Type}

/-! ## Answers that do not depend on the state -/

/-- The answers are those of a function, whatever the state. -/
def Run.AnswersAs (ask : α → Run σ ε β) (answers : α → Except ε β) : Prop :=
  ∀ x l, ((ask x).exec l).1 = answers x

namespace Order

variable {source source' : Source σ} {index : Index} {inspector inspector' : Inspector σ}
  {answers : ModuleId → Except MetadataFailure Metadata} {declares : ModuleId → Metadata}
  {ids candidates : List ModuleId}

/-- Sources that answer as the same function order candidates alike. -/
theorem order_eq_of_answersAs (h : Run.AnswersAs source.metadata answers)
    (h' : Run.AnswersAs source'.metadata answers) (l l' : Ledger σ) :
    ((order source candidates).exec l).1 = ((order source' candidates).exec l').1 := by
  have hmetadata : ∀ id ∈ candidates,
      Run.Related (fun _ _ => True) Eq (source.metadata id) (source'.metadata id) := by
    intro id _ k k' _
    exact ⟨.of_eq ((h id k).trans (h' id k').symm), trivial⟩
  exact (related_order (fun _ => Iff.rfl) hmetadata l l' trivial).agree.eq

/-- A source answers from the index where it can, and else as the inspector does. -/
theorem answersAs_direct (h : Run.AnswersAs inspector answers) :
    Run.AnswersAs (Pass.direct index inspector).metadata fun id =>
      if index.wasProcessed id then (index.metadata id).mapError .malformed else answers id := by
  intro id l
  by_cases indexed : index.wasProcessed id
  · simp [Pass.direct, indexed]
  · simp only [Pass.direct, indexed, Bool.false_eq_true, if_false, Run.exec_report_bind]
    exact h id _

/-! ## Orders in a pass -/

/-- Candidates in order, in a metadata pass of their own. -/
def orderInPass (index : Index) (inspector : Inspector σ) (candidates : List ModuleId) :
    Run σ SelectionFailure (List ModuleId) := do
  let (ordered, _) ← Run.withLocal ∅ (order (Pass.source index inspector) candidates)
  return ordered

/-- What a pass remembers does not show in the order. -/
theorem orderInPass_eq_order :
    orderInPass index inspector candidates = order (Pass.direct index inspector) candidates := by
  apply Run.ext_exec
  intro l
  obtain ⟨cache, hlocal, -⟩ := Pass.exec_withLocal_order index inspector candidates l
  rw [orderInPass, Run.exec_bind, hlocal]
  rcases (order (Pass.direct index inspector) candidates).exec l with ⟨e | ordered, m⟩
  · rfl
  · rfl

/-- The modules that are inspected while candidates are ordered in a pass. -/
def inspectedInPass (index : Index) (inspector : Inspector σ) (candidates : List ModuleId)
    (l : Ledger σ) : List ModuleId :=
  ((orderInPass index inspector.watched candidates).exec (l.beside ∅)).2.world.2.inspected

theorem declared_succeeds_iff {id : ModuleId} {l : Ledger σ} :
    (∃ d, ((declared source id).exec l).1 = .ok d) ↔
      ∃ m, ((source.metadata id).exec l).1 = .ok m := by
  simp only [declared, Run.exec_bind, Run.exec_mapFailure]
  rcases (source.metadata id).exec l with ⟨e | m, k⟩
  · simp [Except.mapError]
  · simp [Except.mapError]

/-- Modules that are in the index are not inspected. The others are, up to one that cannot be
    read. -/
theorem inspectedInPass_eq_asked (h : Run.AnswersAs inspector answers)
    (readable : ∀ id, index.wasProcessed id = true → ∃ m, index.metadata id = .ok m)
    (l : Ledger σ) :
    inspectedInPass index inspector candidates l =
      Run.asked inspector
        ((NameSet.ofList candidates).toList.filter fun id => !index.wasProcessed id) l := by
  let selector : Selector σ := { candidates := return candidates, index, inspector }
  have hrecords : (order (Pass.direct index inspector.watched) candidates).exec (l.beside ∅) = _ :=
    selector.records_order l ∅
  have hanswers : Run.AnswersAs (Pass.direct index inspector).metadata _ := answersAs_direct h
  rw [inspectedInPass, orderInPass_eq_order, hrecords]
  show (Run.asked (declared (Pass.direct index inspector)) _ l).filter _ = _
  apply Run.filter_asked
  · intro id k indexed
    obtain ⟨m, hm⟩ := readable id indexed
    rw [declared_succeeds_iff, hanswers id k, if_pos indexed, hm]
    exact ⟨m, rfl⟩
  · intro id k k' (fresh : index.wasProcessed id = false)
    rw [declared_succeeds_iff, hanswers id k, h id k']
    simp [fresh]

/-! ## Metadata recorded ahead -/

/-- The answers in their normal form for some modules, and as they are for the others. -/
def normalisedOn (ids : List ModuleId) (answers : ModuleId → Except MetadataFailure Metadata)
    (id : ModuleId) : Except MetadataFailure Metadata :=
  if id ∈ ids then (answers id).map Metadata.normalise else answers id

theorem normalisedOn_of_plain (recorded : ∀ id ∈ ids, answers id = .ok (declares id))
    (plain : ∀ id ∈ ids, (declares id).Plain) : normalisedOn ids answers = answers := by
  funext id
  unfold normalisedOn
  split
  · rename_i hid
    rw [recorded id hid, Except.map, (plain id hid).normalise_eq]
  · rfl

theorem answersAs_direct_empty (h : Run.AnswersAs inspector answers) :
    Run.AnswersAs (Pass.direct ∅ inspector).metadata answers := by
  intro id l
  rw [answersAs_direct h id l]
  simp

/-- An index of recorded modules answers for them what the inspector says, normalised. -/
theorem answersAs_direct_recordAll (h : Run.AnswersAs inspector answers)
    (recorded : ∀ id ∈ ids, answers id = .ok (declares id)) :
    Run.AnswersAs (Pass.direct (Index.recordAll ∅ declares ids) inspector).metadata
      (normalisedOn ids answers) := by
  intro id l
  rw [answersAs_direct h id l]
  by_cases hid : id ∈ ids
  · simp [normalisedOn, hid, Index.metadata_recordAll hid, recorded id hid, Except.map,
      Except.mapError]
  · simp [normalisedOn, hid]

def unrecorded (ids candidates : List ModuleId) : List ModuleId :=
  (NameSet.ofList candidates).toList.filter (· ∉ ids)

/-- If an inspector answers as a map, what it answers can be recorded ahead for any modules. The
    order is the same but for the normal form of what was recorded, and only the other
    candidates are inspected. -/
theorem order_of_precomputed (map : Run.AnswersAs inspector answers)
    (recorded : ∀ id ∈ ids, answers id = .ok (declares id))
    (map' : Run.AnswersAs inspector' (normalisedOn ids answers)) (candidates : List ModuleId)
    (l l' : Ledger σ) :
    ((orderInPass (Index.recordAll ∅ declares ids) inspector candidates).exec l).1 =
        ((orderInPass ∅ inspector' candidates).exec l').1 ∧
      ((∀ id ∈ ids, (declares id).Plain) →
        ((orderInPass (Index.recordAll ∅ declares ids) inspector candidates).exec l).1 =
          ((orderInPass ∅ inspector candidates).exec l').1) ∧
      inspectedInPass (Index.recordAll ∅ declares ids) inspector candidates l =
        Run.asked inspector (unrecorded ids candidates) l ∧
      ((∀ id ∈ unrecorded ids candidates, ∃ m, answers id = .ok m) →
        inspectedInPass (Index.recordAll ∅ declares ids) inspector candidates l =
          unrecorded ids candidates) := by
  have hindexed := answersAs_direct_recordAll map recorded
  have hinspected : inspectedInPass (Index.recordAll ∅ declares ids) inspector candidates l =
      Run.asked inspector (unrecorded ids candidates) l := by
    have readable : ∀ id, (Index.recordAll ∅ declares ids).wasProcessed id = true →
        ∃ m, (Index.recordAll ∅ declares ids).metadata id = .ok m := by
      intro id hid
      simp only [Index.wasProcessed_recordAll, Index.wasProcessed_empty, Bool.or_false,
        decide_eq_true_eq] at hid
      exact ⟨_, Index.metadata_recordAll hid⟩
    rw [inspectedInPass_eq_asked map readable]
    simp [unrecorded]
  simp only [orderInPass_eq_order]
  refine ⟨?_, ?_, hinspected, ?_⟩
  · exact order_eq_of_answersAs hindexed (answersAs_direct_empty map') l l'
  · intro plain
    rw [normalisedOn_of_plain recorded plain] at hindexed
    exact order_eq_of_answersAs hindexed (answersAs_direct_empty map) l l'
  · intro readable
    rw [hinspected]
    apply Run.asked_eq_self
    intro id hid k
    rw [map id k]
    exact readable id hid

/-- One module declares a name with blanks. It does not count unless it is recorded, and then it
    moves the module forward. -/
theorem order_of_precomputed_of_blanks :
    let declares : ModuleId → Metadata := fun id =>
      if id = "b" then { before := NameSet.ofList [" a ", ""] }
      else if id = "a" then { after := NameSet.ofList [" c"] }
      else {}
    let declares' : ModuleId → Metadata := fun id =>
      if id = "b" then { before := NameSet.ofList ["a"] } else declares id
    let answers : ModuleId → Except MetadataFailure Metadata := fun id => .ok (declares id)
    let inspector : Inspector Unit := .ofFunction declares
    let inspector' : Inspector Unit := .ofFunction declares'
    let candidates := ["c", "b", "a", "b"]
    let l : Ledger Unit := ⟨(), []⟩
    Run.AnswersAs inspector answers ∧ (∀ id ∈ ["b"], answers id = .ok (declares id)) ∧
      Run.AnswersAs inspector' (normalisedOn ["b"] answers) ∧
      ((orderInPass (Index.recordAll ∅ declares ["b"]) inspector candidates).exec l).1 =
        .ok ["b", "a", "c"] ∧
      ((orderInPass ∅ inspector' candidates).exec l).1 = .ok ["b", "a", "c"] ∧
      ((orderInPass ∅ inspector candidates).exec l).1 = .ok ["a", "b", "c"] ∧
      inspectedInPass (Index.recordAll ∅ declares ["b"]) inspector candidates l = ["a", "c"] := by
  intro declares declares' answers inspector inspector' candidates l
  have map : Run.AnswersAs inspector answers := fun _ _ => rfl
  have recorded : ∀ id ∈ ["b"], answers id = .ok (declares id) := fun _ _ => rfl
  have hnormal : (declares "b").normalise = declares' "b" := by
    simp only [declares, declares']
    cbv
  have map' : Run.AnswersAs inspector' (normalisedOn ["b"] answers) := by
    intro id k
    by_cases hid : id = "b"
    · subst hid
      exact congrArg Except.ok hnormal.symm
    · simp [normalisedOn, hid, inspector', answers, declares', Inspector.ofFunction]
  have hordered : ((orderInPass (Index.recordAll ∅ declares ["b"]) inspector candidates).exec l).1 =
      .ok ["b", "a", "c"] := by
    simp only [declares, inspector, candidates, l]
    cbv
  have hinspector : ((orderInPass ∅ inspector candidates).exec l).1 = .ok ["a", "b", "c"] := by
    simp only [declares, inspector, candidates, l]
    cbv
  obtain ⟨same, -, -, inspected⟩ := order_of_precomputed map recorded map' candidates l l
  have hunrecorded : unrecorded ["b"] candidates = ["a", "c"] := by
    simp only [candidates]
    cbv
  refine ⟨map, recorded, map', hordered, same.symm.trans hordered, hinspector, ?_⟩
  rw [inspected fun id _ => ⟨declares id, rfl⟩]
  exact hunrecorded

end Order

end Activation
