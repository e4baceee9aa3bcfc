-- SUMMARY: Which modules have all features active that an index and a manifest require of them.
import Activation.Manifest
import Activation.Proofs.Filter
import Activation.Proofs.Index.Listing
import Activation.Proofs.NameMap
import Mathlib

/-!
# Required features

What a module requires is what the index lists for it where it has the attribute, and otherwise
what the manifest declares. The filter judges one candidate after the other, each by what it
requires alone, until it comes to one whose attribute is malformed. A declaration that requires
nothing can be left out.
-/

namespace Activation

namespace Manifest

variable {m : Manifest} {id : ModuleId}

/-- What a module requires. A module that the manifest does not know requires nothing. -/
def requiredOf (m : Manifest) (id : ModuleId) : NameSet :=
  ((m.modules.find? id).map (·.requiresFeatures)).getD ∅

/-- A module that the manifest does not declare requires nothing. -/
theorem all_find?_requiresFeatures (active : NameSet) :
    (((m.modules.map (·.requiresFeatures)).find? id).all fun features =>
      features.isSubset active) = (m.requiredOf id).isSubset active := by
  rw [NameMap.find?_map, requiredOf]
  cases m.modules.find? id with
  | none => rfl
  | some d => rfl

/-- Modules that require nothing are left out, and pass as if they were not. -/
theorem all_requiredFeatures (active : NameSet) :
    ((m.requiredFeatures.find? id).all fun features => features.isSubset active) =
      (m.requiredOf id).isSubset active := by
  rw [← all_find?_requiresFeatures, requiredFeatures, NameMap.find?_filter]
  cases (m.modules.map (·.requiresFeatures)).find? id with
  | none => rfl
  | some features =>
    rw [Option.filter_some]
    split
    · rfl
    · rename_i hempty
      have hnil : features.toList = [] := by
        simpa [NameSet.isEmpty] using hempty
      rw [Option.all_some, NameSet.isSubset, hnil]
      rfl

end Manifest

namespace Features

variable {σ : Type} {features features' : List String} {m m' : Manifest} {index index' : Index}
  {candidates : List ModuleId} {id : ModuleId} {keep : List Bool} {l k : Ledger σ}

/-! ## Requirements -/

/-- What a module requires, by its attribute in the index and by what is declared of it. -/
inductive Requires : Option Toml.Value → Option NameSet → NameSet → Prop
  /-- An attribute counts, also one that lists nothing. -/
  | indexed {v : Toml.Value} {declared : Option NameSet} {names : NameSet}
      (lists : Index.Lists v names)
      (plain : ∀ name ∈ names, name ≠ "" ∧ Text.Unpadded name.toList) :
      Requires (some v) declared names
  | declared {names : NameSet} : Requires none (some names) names
  | undeclared : Requires none none ∅

/-- A module has a malformed attribute in the index. -/
def Unreadable (index : Index) (id : ModuleId) : Prop :=
  ∃ v, index.get? id requiredAttribute = some v ∧ Index.Malformed v

/-- The verdict on a module: whether all features that it requires are active. -/
def Verdict (features : List String) (m : Manifest) (index : Index) (id : ModuleId)
    (keep : Bool) : Prop :=
  ∃ names, Requires (index.get? id requiredAttribute)
    ((m.modules.find? id).map (·.requiresFeatures)) names ∧
      (keep = true ↔ ∀ name ∈ names, name ∈ features)

/-- The events that report modules with a negative verdict. -/
def rejections (ids : List ModuleId) (keep : List Bool) : List Event :=
  (Sieved.divide ids keep).removed.map .missingFeatures

/-- What comes of judging candidates, with the events that are reported. -/
inductive Judged (features : List String) (m : Manifest) (index : Index) :
    List ModuleId → Except Fault (List Bool) → List Event → Prop
  /-- The first candidate whose attribute is malformed is an error. The verdicts before it are
      reported. -/
  | failed {before after : List ModuleId} {id : ModuleId} {keep : List Bool}
      (earlier : List.Forall₂ (Verdict features m index) before keep)
      (unreadable : Unreadable index id) :
      Judged features m index (before ++ id :: after)
        (.error (.metadata (.malformed ⟨id, requiredAttribute, .names⟩))) (rejections before keep)
  /-- There is one verdict on each candidate. -/
  | passed {candidates : List ModuleId} {keep : List Bool}
      (each : List.Forall₂ (Verdict features m index) candidates keep) :
      Judged features m index candidates (.ok keep) (rejections candidates keep)

theorem Requires.reads {v : Toml.Value} {declared : Option NameSet} {names : NameSet}
    (h : Requires (some v) declared names) : Index.namesOfValue? v = some names := by
  cases h with
  | indexed lists plain =>
    exact Index.namesOfValue?_of_lists lists fun name hname => Text.plain_iff.2 (plain name hname)

theorem Requires.eq_getD {declared : Option NameSet} {names : NameSet}
    (h : Requires none declared names) : names = declared.getD ∅ := by
  cases h with
  | declared => rfl
  | undeclared => rfl

/-- What a module requires depends on nothing else, and a declaration that requires nothing is as
    good as none. -/
theorem Requires.eq {attr : Option Toml.Value} {declared declared' : Option NameSet}
    {names names' : NameSet} (h : Requires attr declared names)
    (h' : Requires attr declared' names') (same : declared.getD ∅ = declared'.getD ∅) :
    names = names' := by
  cases attr with
  | none => rw [h.eq_getD, h'.eq_getD, same]
  | some v => exact Option.some.inj (h.reads.symm.trans h'.reads)

/-- Either it can be told what a module requires, or its attribute is malformed. -/
theorem requires_or_unreadable (index : Index) (id : ModuleId) (declared : Option NameSet) :
    (∃ names, Requires (index.get? id requiredAttribute) declared names) ∨
      Unreadable index id := by
  unfold Unreadable
  cases index.get? id requiredAttribute with
  | none =>
    cases declared with
    | none => exact .inl ⟨∅, .undeclared⟩
    | some names => exact .inl ⟨names, .declared⟩
  | some v =>
    cases Index.reads_or_malformed v with
    | inl reads =>
      obtain ⟨names, -, lists, plain⟩ := reads
      exact .inl ⟨names, .indexed lists fun name hname => Text.plain_iff.1 (plain name hname)⟩
    | inr malformed => exact .inr ⟨v, rfl, malformed⟩

/-- Where it can be told what a module requires, the attribute is not malformed. -/
theorem Requires.not_unreadable {declared : Option NameSet} {names : NameSet}
    (h : Requires (index.get? id requiredAttribute) declared names) : ¬ Unreadable index id := by
  intro unreadable
  obtain ⟨v, hget, malformed⟩ := unreadable
  rw [hget] at h
  cases h.reads.symm.trans (Index.namesOfValue?_of_malformed malformed)

/-! ## One candidate -/

theorem required?_of_unreadable (unreadable : Unreadable index id) (declared : NameMap NameSet) :
    required? declared index id = .error ⟨id, requiredAttribute, .names⟩ := by
  obtain ⟨v, hget, malformed⟩ := unreadable
  simp only [required?, hget, Index.getNames_of_malformed hget malformed]
  rfl

/-- The verdict on a module is whether the names that it requires are active. -/
theorem required?_of_requires {names : NameSet}
    (h : Requires (index.get? id requiredAttribute)
      ((m.modules.find? id).map (·.requiresFeatures)) names) (active : NameSet) :
    (required? m.requiredFeatures index id).map
      (fun required => required.all fun features => features.isSubset active) =
        .ok (names.isSubset active) := by
  unfold required?
  cases hget : index.get? id requiredAttribute with
  | none =>
    rw [hget] at h
    simp only [Except.map, Manifest.all_requiredFeatures, Manifest.requiredOf, ← h.eq_getD]
  | some v =>
    rw [hget] at h
    simp only [Index.getNames_of_namesOfValue? hget h.reads]
    rfl

/-- Judging a module logs its rejection and nothing else, and reads no ledger. -/
theorem exec_judge (active : NameSet) (declared : NameMap NameSet) :
    (judge active declared index id).exec l =
      match (required? declared index id).map
        (fun required => required.all fun features => features.isSubset active) with
      | .error failure => (.error (.malformed failure), l)
      | .ok keep => (.ok keep, l.logged (rejections [id] [keep])) := by
  unfold judge
  rw [Run.exec_bind, Run.exec_ofExcept]
  cases required? declared index id with
  | error failure => rfl
  | ok required =>
    simp only [Except.map, Except.mapError]
    cases required.all fun features => features.isSubset active with
    | false => rfl
    | true => simp [rejections, Sieved.divide]

/-- A module is judged by what it requires, and a rejection is logged. -/
theorem judge_eq_ok_iff {verdict : Bool} :
    (judge (.ofList features) m.requiredFeatures index id).exec l = (.ok verdict, k) ↔
      Verdict features m index id verdict ∧ k = l.logged (rejections [id] [verdict]) := by
  rw [exec_judge]
  cases requires_or_unreadable index id ((m.modules.find? id).map (·.requiresFeatures)) with
  | inl told =>
    obtain ⟨names, requires⟩ := told
    simp only [required?_of_requires requires, Prod.mk.injEq, Except.ok.injEq]
    refine ⟨fun h => ?_, fun h => ?_⟩
    · obtain ⟨rfl, rfl⟩ := h
      refine ⟨⟨names, requires, ?_⟩, rfl⟩
      simp only [NameSet.isSubset_iff, NameSet.mem_ofList]
    · obtain ⟨⟨names', requires', active⟩, rfl⟩ := h
      cases requires.eq requires' rfl
      have hverdict : names.isSubset (.ofList features) = verdict := by
        rw [Bool.eq_iff_iff, active]
        simp only [NameSet.isSubset_iff, NameSet.mem_ofList]
      exact ⟨hverdict, hverdict ▸ rfl⟩
  | inr unreadable =>
    simp only [required?_of_unreadable unreadable, Except.map, Prod.mk.injEq, reduceCtorEq,
      false_and, false_iff]
    intro h
    obtain ⟨⟨names, requires, -⟩, -⟩ := h
    exact requires.not_unreadable unreadable

/-- A module cannot be judged exactly if its attribute is malformed, and then nothing is logged. -/
theorem judge_eq_error_iff {failure : MetadataFailure} :
    (judge (.ofList features) m.requiredFeatures index id).exec l = (.error failure, k) ↔
      Unreadable index id ∧ failure = .malformed ⟨id, requiredAttribute, .names⟩ ∧ k = l := by
  rw [exec_judge]
  cases requires_or_unreadable index id ((m.modules.find? id).map (·.requiresFeatures)) with
  | inl told =>
    obtain ⟨names, requires⟩ := told
    simp only [required?_of_requires requires, Prod.mk.injEq, reduceCtorEq, false_and, false_iff]
    exact fun h => requires.not_unreadable h.1
  | inr unreadable =>
    simp only [required?_of_unreadable unreadable, Except.map, Prod.mk.injEq, Except.error.injEq,
      unreadable, true_and, eq_comm]

/-! ## All candidates -/

theorem rejections_nil : rejections [] [] = [] := rfl

theorem rejections_cons (id : ModuleId) (verdict : Bool) (ids : List ModuleId) :
    rejections (id :: ids) (verdict :: keep) =
      rejections [id] [verdict] ++ rejections ids keep := by
  cases verdict with
  | false => rfl
  | true => rfl

/-- All candidates that are judged have a verdict, and those with a negative one are reported. -/
theorem answered_judge_iff :
    Run.Answered (judge (.ofList features) m.requiredFeatures index) candidates l keep k ↔
      List.Forall₂ (Verdict features m index) candidates keep ∧
        k = l.logged (rejections candidates keep) := by
  refine ⟨fun h => ?_, fun h => ?_⟩
  · induction h with
    | nil => exact ⟨.nil, by rw [rejections_nil, Ledger.logged_nil]⟩
    | cons answer _ ih =>
      obtain ⟨verdict, rfl⟩ := judge_eq_ok_iff.1 answer
      obtain ⟨each, rfl⟩ := ih
      exact ⟨.cons verdict each, by rw [Ledger.logged_logged, ← rejections_cons]⟩
  · obtain ⟨each, rfl⟩ := h
    induction each generalizing l with
    | nil => simpa only [rejections_nil, Ledger.logged_nil] using Run.Answered.nil
    | cons verdict _ ih =>
      rw [rejections_cons, ← Ledger.logged_logged]
      exact .cons (judge_eq_ok_iff.2 ⟨verdict, rfl⟩) ih

abbrev judgement (features : List String) (m : Manifest) (index : Index)
    (candidates : List ModuleId) : Run σ Fault (List Bool) :=
  (filter (.ofList features) m.requiredFeatures).verdicts candidates index

/-- How the filter ends and what it logs are determined by the attributes and the declarations of
    the candidates. -/
theorem judgement_eq_iff {outcome : Except Fault (List Bool)} :
    (judgement features m index candidates).exec l = (outcome, k) ↔
      ∃ events, Judged features m index candidates outcome events ∧ k = l.logged events := by
  unfold judgement filter verdicts
  cases outcome with
  | ok keep =>
    rw [Run.exec_mapFailure_eq_ok_iff, Run.exec_mapM_eq_ok_iff, answered_judge_iff]
    refine ⟨fun h => ⟨_, .passed h.1, h.2⟩, fun h => ?_⟩
    obtain ⟨_, judged, rfl⟩ := h
    cases judged with
    | passed each => exact ⟨each, rfl⟩
  | error fault =>
    simp only [Run.exec_mapFailure_eq_error_iff, Run.exec_mapM_eq_error_iff, Run.turn_iff,
      answered_judge_iff, judge_eq_error_iff]
    refine ⟨fun h => ?_, fun h => ?_⟩
    · obtain ⟨_, ⟨id, _, ⟨before, after, keep, rfl, earlier, rfl⟩, unreadable, rfl, rfl⟩, rfl⟩ := h
      exact ⟨_, .failed earlier unreadable, rfl⟩
    · obtain ⟨_, judged, rfl⟩ := h
      cases judged with
      | failed earlier unreadable =>
        exact ⟨_, ⟨_, _, ⟨_, _, _, rfl, earlier, rfl⟩, unreadable, rfl, rfl⟩, rfl⟩

/-- A module with a verdict has no malformed attribute. -/
theorem Verdict.not_unreadable {verdict : Bool} (h : Verdict features m index id verdict) :
    ¬ Unreadable index id := by
  obtain ⟨names, requires, -⟩ := h
  exact requires.not_unreadable

theorem Judged.exists_verdict {events : List Event} {i : Nat}
    (h : Judged features m index candidates (.ok keep) events) (hi : candidates[i]? = some id) :
    ∃ verdict, keep[i]? = some verdict ∧ Verdict features m index id verdict := by
  cases h with
  | passed each =>
    obtain ⟨hlt, rfl⟩ := List.getElem?_eq_some_iff.1 hi
    have hlt' : i < keep.length := each.length_eq ▸ hlt
    exact ⟨_, List.getElem?_eq_getElem hlt', each.get hlt hlt'⟩

/-- A judgement fails if the attribute of any candidate is malformed, and else it does not. -/
theorem Judged.failed_iff {outcome : Except Fault (List Bool)} {events : List Event}
    (h : Judged features m index candidates outcome events) :
    (∃ fault, outcome = .error fault) ↔ ∃ id ∈ candidates, Unreadable index id := by
  cases outcome with
  | error fault =>
    cases h with
    | @failed before after id _ earlier unreadable =>
      exact iff_of_true ⟨_, rfl⟩ ⟨id, by simp, unreadable⟩
  | ok keep =>
    refine iff_of_false (by simp) fun h' => ?_
    obtain ⟨id, hid, unreadable⟩ := h'
    obtain ⟨i, hi⟩ := List.getElem?_of_mem hid
    obtain ⟨verdict, -, hverdict⟩ := h.exists_verdict hi
    exact hverdict.not_unreadable unreadable

/-- A verdict depends on nothing but what is said about the module and which features are
    active. -/
theorem Verdict.eq {verdict verdict' : Bool} (h : Verdict features m index id verdict)
    (h' : Verdict features' m' index' id verdict')
    (active : ∀ name, name ∈ features ↔ name ∈ features')
    (indexed : index.get? id requiredAttribute = index'.get? id requiredAttribute)
    (declared : m.requiredOf id = m'.requiredOf id) : verdict = verdict' := by
  obtain ⟨names, requires, hverdict⟩ := h
  obtain ⟨names', requires', hverdict'⟩ := h'
  rw [indexed] at requires
  cases requires.eq requires' declared
  rw [Bool.eq_iff_iff, hverdict, hverdict']
  simp only [active]

/-- Declarations that require nothing can be left out. -/
theorem filter_requiredFeatures (active : NameSet) :
    (filter active m.requiredFeatures : Filter σ) =
      filter active (m.modules.map (·.requiresFeatures)) := by
  have hjudge : ∀ index, (judge active m.requiredFeatures index : _ → Run σ _ _) =
      judge active (m.modules.map (·.requiresFeatures)) index := by
    intro index
    funext id
    apply Run.ext_exec
    intro l
    rw [exec_judge, exec_judge]
    -- What is declared shows only where the attribute is absent.
    unfold required?
    cases index.get? id requiredAttribute with
    | none =>
      simp only [Except.map, Manifest.all_requiredFeatures, Manifest.all_find?_requiresFeatures]
    | some v => rfl
  simp only [filter, verdicts, hjudge]

/-- The filter judges candidates one after the other and says whether all features are active
    that each requires. It fails exactly if the attribute of some candidate is malformed, with the
    first such candidate. Declarations that require nothing do not matter, and a verdict does not
    depend on other candidates or on what is said about other modules. -/
theorem judgement_of_requirements (features : List String) (m : Manifest) (index : Index)
    (candidates : List ModuleId) :
    (∀ (σ : Type) (l k : Ledger σ) outcome,
      (judgement features m index candidates).exec l = (outcome, k) ↔
        ∃ events, Judged features m index candidates outcome events ∧ k = l.logged events) ∧
    (∀ (σ : Type) (l : Ledger σ),
      (∃ fault, ((judgement features m index candidates).exec l).1 = .error fault) ↔
        ∃ id ∈ candidates, Unreadable index id) ∧
    (∀ (σ : Type) active, (filter active m.requiredFeatures : Filter σ) =
      filter active (m.modules.map (·.requiresFeatures))) ∧
    ∀ features' m' index' candidates' id (i j : Nat) keep keep' (σ : Type) (l l' : Ledger σ),
      (∀ name, name ∈ features ↔ name ∈ features') →
      index.get? id requiredAttribute = index'.get? id requiredAttribute →
      m.requiredOf id = m'.requiredOf id →
      candidates[i]? = some id → candidates'[j]? = some id →
      ((judgement features m index candidates).exec l).1 = .ok keep →
      ((judgement features' m' index' candidates').exec l').1 = .ok keep' →
      keep[i]? = keep'[j]? := by
  refine ⟨fun σ l k outcome => judgement_eq_iff, fun σ l => ?_, fun σ active =>
    filter_requiredFeatures active, ?_⟩
  · obtain ⟨events, judged, -⟩ := judgement_eq_iff.1 (Eq.refl
      ((judgement features m index candidates).exec l))
    exact judged.failed_iff
  · intro features' m' index' candidates' id i j keep keep' σ l l' active indexed declared hi hj
      hkeep hkeep'
    obtain ⟨events, judged, -⟩ := judgement_eq_iff.1 (Prod.ext hkeep rfl)
    obtain ⟨events', judged', -⟩ := judgement_eq_iff.1 (Prod.ext hkeep' rfl)
    obtain ⟨verdict, hverdict, hjudged⟩ := judged.exists_verdict hi
    obtain ⟨verdict', hverdict', hjudged'⟩ := judged'.exists_verdict hj
    rw [hverdict, hverdict', hjudged.eq hjudged' active indexed declared]

/-- A blank attribute lifts what is declared, an absent one does not, and both modules are judged
    as they are under another manifest and another index that say the same about them. -/
theorem judgement_of_requirements_of_two_manifests :
    let m : Manifest :=
      { modules := .ofList [("a", { requiresFeatures := .ofList ["y"] }),
          ("b", { requiresFeatures := .ofList ["y"] }), ("c", {})] }
    let m' : Manifest :=
      { modules := .ofList [("a", { requiresFeatures := .ofList ["y"] }),
          ("b", { requiresFeatures := .ofList ["y"] }),
          ("c", { requiresFeatures := .ofList ["z"] })] }
    let index : Index :=
      { modules := .ofList [("a", .ofList [("requires-features", .string " ,")]),
          ("b", .ofList [("order", .integer 1)])] }
    let index' : Index :=
      { modules := .ofList [("a", .ofList [("requires-features", .string " ,")]),
          ("d", .ofList [("requires-features", .boolean true)])] }
    let l : Ledger Unit := ⟨(), []⟩
    let keep := [true, false, true, true]
    let keep' := [false, true, false]
    ((judgement ["x", "x"] m index ["a", "b", "a", "c"]).exec l).1 = .ok keep ∧
      ((judgement ["x"] m' index' ["c", "a", "b"]).exec l).1 = .ok keep' ∧
      (∀ id ∈ ["a", "b"], index.get? id requiredAttribute = index'.get? id requiredAttribute ∧
        m.requiredOf id = m'.requiredOf id) ∧
      keep[2]? = keep'[1]? ∧ keep[1]? = keep'[2]? := by
  intro m m' index index' l keep keep'
  have hruns : ((judgement ["x", "x"] m index ["a", "b", "a", "c"]).exec l).1 = .ok keep ∧
      ((judgement ["x"] m' index' ["c", "a", "b"]).exec l).1 = .ok keep' := by
    simp only [m, m', index, index', l, keep, keep']
    exact ⟨by cbv, by cbv⟩
  have said : ∀ id ∈ ["a", "b"],
      index.get? id requiredAttribute = index'.get? id requiredAttribute ∧
        m.requiredOf id = m'.requiredOf id := by
    simp only [List.forall_mem_cons, List.not_mem_nil, false_implies, implies_true, and_true, m, m',
      index, index']
    exact ⟨⟨by cbv, by cbv⟩, by cbv, by cbv⟩
  obtain ⟨hkeep, hkeep'⟩ := hruns
  have active : ∀ name, name ∈ ["x", "x"] ↔ name ∈ ["x"] := by simp
  have place := (judgement_of_requirements ["x", "x"] m index ["a", "b", "a", "c"]).2.2.2
    ["x"] m' index' ["c", "a", "b"]
  obtain ⟨indexed, declared⟩ := said "a" (by simp)
  obtain ⟨indexed', declared'⟩ := said "b" (by simp)
  exact ⟨hkeep, hkeep', said,
    place "a" 2 1 keep keep' Unit l l active indexed declared rfl rfl hkeep hkeep',
    place "b" 1 2 keep keep' Unit l l active indexed' declared' rfl rfl hkeep hkeep'⟩

end Features

end Activation
