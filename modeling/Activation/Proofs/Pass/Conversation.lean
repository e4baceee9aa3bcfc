-- SUMMARY: Any sequence of queries to the source of one pass.
import Activation.Proofs.NameMap
import Activation.Proofs.OwnEvents
import Activation.Proofs.Gives
import Activation.Proofs.Pass
import Activation.Proofs.Selection.Questions
import Activation.Rehearsal
import Mathlib

/-!
# Conversations with a source

The source of a pass may be asked anything in any order, and the inspector behind it may answer
differently each time. What the source answers is told without its memory, by what it read for
earlier queries (`Course`): a module in the index is read there, and another one is inspected
until that succeeds once.

Runs refine this account because the memory holds the first successes (`Remembers`).
-/

namespace Activation

namespace Pass

variable {σ : Type}

/-! ## Queries -/

/-- What a source can be asked, and how many modules it has inspected. -/
inductive Query
  | metadata (id : ModuleId)
  | orderHint (id : ModuleId)
  | wasPrecomputed (id : ModuleId)
  | inspected
  deriving DecidableEq

/-- An answer to a query. Failures are answers. -/
inductive Answer
  | metadata (result : Except MetadataFailure Metadata)
  | orderHint (result : Except MetadataFailure OrderHint)
  | wasPrecomputed (precomputed : Bool)
  | inspected (modules : Nat)

/-- Go on after a failure. -/
def attempt {ε α : Type} (run : Run σ ε α) : Run σ Empty (Except ε α) :=
  Run.ofFunction fun l => (.ok (run.exec l).1, (run.exec l).2)

/-- Put a query to the source of the pass. -/
def put (index : Index) (inspector : Inspector σ) : Query → Run (σ × Cache) Empty Answer
  | .metadata id => return .metadata (← attempt ((source index inspector).metadata id))
  | .orderHint id => return .orderHint (← attempt ((source index inspector).orderHint id))
  | .wasPrecomputed id => return .wasPrecomputed ((source index inspector).wasPrecomputed id)
  | .inspected => return .inspected (← get).world.2.size

/-- Put queries to the source of a new pass, one after the other. -/
def converse (index : Index) (inspector : Inspector σ) (queries : List Query) :
    Run σ Empty (List Answer) :=
  return (← Run.withLocal ∅ (queries.mapM (put index inspector))).1

/-! ## What should be answered -/

/-- What was read of a module for a query. -/
structure Reading where
  id : ModuleId
  result : Except MetadataFailure Metadata
  /-- Whether the inspector was called. -/
  inspected : Bool

/-- The metadata that the first successful reading of a module gave. -/
def known (earlier : List Reading) (id : ModuleId) : Option Metadata :=
  earlier.findSome? fun reading => if reading.id = id then reading.result.toOption else none

/-- The modules outside the index that were read successfully. -/
def succeeded (index : Index) (earlier : List Reading) : Finset ModuleId :=
  ((earlier.filter fun reading => !index.wasProcessed reading.id && reading.result.isOk).map
    (·.id)).toFinset

/-- The modules for which the inspector was called, in order. -/
def calls (readings : List Reading) : List ModuleId :=
  (readings.filter (·.inspected)).map (·.id)

/-- How a module is read after some readings. -/
inductive Reads (index : Index) (inspector : Inspector σ) (earlier : List Reading) (id : ModuleId)
    (l : Ledger σ) : Reading → Ledger σ → Prop
  /-- The index answers for its modules, also by a failure. -/
  | indexed (indexed : index.wasProcessed id = true) :
      Reads index inspector earlier id l ⟨id, (index.metadata id).mapError .malformed, false⟩ l
  /-- What a reading gave once, later ones give. -/
  | recalled {m : Metadata} (fresh : index.wasProcessed id = false)
      (told : known earlier id = some m) : Reads index inspector earlier id l ⟨id, .ok m, false⟩ l
  /-- The inspector is called where no reading succeeded. This is logged before. -/
  | inspected {result : Except MetadataFailure Metadata} {k : Ledger σ}
      (fresh : index.wasProcessed id = false) (untold : known earlier id = none)
      (inspection : (inspector id).exec (l.logged [.inspecting id]) = (result, k)) :
      Reads index inspector earlier id l ⟨id, result, true⟩ k

/-- The answer to a query after some readings, the readings after it, and what is left. -/
inductive Answers (index : Index) (inspector : Inspector σ) (earlier : List Reading)
    (l : Ledger σ) : Query → Answer → List Reading → Ledger σ → Prop
  | metadata {id : ModuleId} {reading : Reading} {k : Ledger σ}
      (reads : Reads index inspector earlier id l reading k) :
      Answers index inspector earlier l (.metadata id) (.metadata reading.result)
        (earlier ++ [reading]) k
  | orderHint {id : ModuleId} {reading : Reading} {k : Ledger σ}
      (reads : Reads index inspector earlier id l reading k) :
      Answers index inspector earlier l (.orderHint id)
        (.orderHint (reading.result.map (·.order))) (earlier ++ [reading]) k
  | wasPrecomputed {id : ModuleId} :
      Answers index inspector earlier l (.wasPrecomputed id)
        (.wasPrecomputed (index.wasProcessed id)) earlier l
  | inspected :
      Answers index inspector earlier l .inspected (.inspected (succeeded index earlier).card)
        earlier l

/-- The answers to queries, one after the other. -/
inductive Course (index : Index) (inspector : Inspector σ) : List Reading → Ledger σ →
    List Query → List Answer → List Reading → Ledger σ → Prop
  | done {earlier : List Reading} {l : Ledger σ} : Course index inspector earlier l [] [] earlier l
  | step {earlier next all : List Reading} {l k m : Ledger σ} {query : Query} {answer : Answer}
      {queries : List Query} {answers : List Answer}
      (first : Answers index inspector earlier l query answer next k)
      (later : Course index inspector next k queries answers all m) :
      Course index inspector earlier l (query :: queries) (answer :: answers) all m

variable {index : Index} {inspector : Inspector σ} {earlier next all : List Reading}
  {reading : Reading} {id : ModuleId} {l k m : Ledger σ} {cache : Cache} {query : Query}
  {answer : Answer} {queries : List Query} {answers : List Answer}

/-! ### All queries have answers -/

/-- Metadata is read in one of the ways, whatever the inspector does. -/
theorem exists_reads (index : Index) (inspector : Inspector σ) (earlier : List Reading)
    (id : ModuleId) (l : Ledger σ) : ∃ reading k, Reads index inspector earlier id l reading k := by
  cases indexed : index.wasProcessed id with
  | true => exact ⟨_, _, .indexed indexed⟩
  | false =>
    cases told : known earlier id with
    | some m => exact ⟨_, _, .recalled indexed told⟩
    | none => exact ⟨_, _, .inspected indexed told rfl⟩

theorem exists_answers (index : Index) (inspector : Inspector σ) (earlier : List Reading)
    (l : Ledger σ) (query : Query) :
    ∃ answer next k, Answers index inspector earlier l query answer next k := by
  cases query with
  | metadata id =>
    obtain ⟨reading, k, reads⟩ := exists_reads index inspector earlier id l
    exact ⟨_, _, k, .metadata reads⟩
  | orderHint id =>
    obtain ⟨reading, k, reads⟩ := exists_reads index inspector earlier id l
    exact ⟨_, _, k, .orderHint reads⟩
  | wasPrecomputed id => exact ⟨_, _, _, .wasPrecomputed⟩
  | inspected => exact ⟨_, _, _, .inspected⟩

/-- Queries have answers one after the other, each from what the one before left. -/
theorem exists_course (index : Index) (inspector : Inspector σ) (earlier : List Reading)
    (l : Ledger σ) (queries : List Query) :
    ∃ answers all m, Course index inspector earlier l queries answers all m := by
  induction queries generalizing earlier l with
  | nil => exact ⟨_, _, _, .done⟩
  | cons query queries ih =>
    obtain ⟨answer, next, k, first⟩ := exists_answers index inspector earlier l query
    obtain ⟨answers, all, m, later⟩ := ih next k
    exact ⟨_, all, m, .step first later⟩

/-! ## The memory of a pass -/

/-- A pass remembers what it first read of each module that is not in the index. -/
def Remembers (index : Index) (cache : Cache) (earlier : List Reading) : Prop :=
  ∀ id, cache.find? id = if index.wasProcessed id then none else known earlier id

/-- What is known of a module is what was told first; later readings add nothing to it. -/
theorem known_append (earlier : List Reading) (reading : Reading) (id : ModuleId) :
    known (earlier ++ [reading]) id = (known earlier id).or
      (if reading.id = id then reading.result.toOption else none) := by
  simp only [known, List.findSome?_append, List.findSome?_cons, List.findSome?_nil]
  congr 1
  split
  · rename_i h
    rw [h]
  · rename_i h
    rw [h]

theorem remembers_nil (index : Index) : Remembers index ∅ [] := by
  intro id
  simp [known]

/-- A reading that tells nothing new changes nothing. -/
theorem Remembers.append (remembers : Remembers index cache earlier)
    (h : index.wasProcessed reading.id = true ∨ reading.result.toOption = none ∨
      (known earlier reading.id).isSome) : Remembers index cache (earlier ++ [reading]) := by
  intro id
  rw [remembers id, known_append]
  cases indexed : index.wasProcessed id with
  | true => rfl
  | false =>
    simp only [Bool.false_eq_true, if_false]
    split
    · rename_i heq
      subst heq
      rcases h with h | h | h
      · simp [h] at indexed
      · rw [h, Option.or_none]
      · obtain ⟨m, hm⟩ := Option.isSome_iff_exists.1 h
        rw [hm, Option.some_or]
    · rw [Option.or_none]

/-- What is remembered is told without asking or logging. -/
theorem exec_metadata_of_known {m : Metadata} (fresh : index.wasProcessed id = false)
    (told : cache.find? id = some m) :
    ((source index inspector).metadata id).exec (l.beside cache) = (.ok m, l.beside cache) := by
  simp only [source, fresh, Bool.false_eq_true, if_false, lookUp, Run.exec_bind, Run.exec_get,
    Ledger.world_beside, told, Run.exec_pure]

/-- The source of a pass reads modules as it should, and goes on to remember. -/
theorem Remembers.reads (remembers : Remembers index cache earlier)
    (reads : Reads index inspector earlier id l reading k) :
    ∃ after, ((source index inspector).metadata id).exec (l.beside cache) =
        (reading.result, k.beside after) ∧ Remembers index after (earlier ++ [reading]) := by
  have hfind := remembers id
  cases reads with
  | indexed indexed =>
    refine ⟨cache, ?_, remembers.append (.inl indexed)⟩
    simp only [source, indexed, if_true, Run.exec_ofExcept]
  | recalled fresh told =>
    rw [fresh, if_neg Bool.false_ne_true, told] at hfind
    have known_isSome : (known earlier id).isSome := Option.isSome_of_eq_some told
    exact ⟨cache, exec_metadata_of_known fresh hfind, remembers.append (.inr (.inr known_isSome))⟩
  | @inspected result k fresh untold inspection =>
    rw [fresh, if_neg Bool.false_ne_true, untold] at hfind
    have hread : ((source index inspector).metadata id).exec (l.beside cache) = _ :=
      exec_metadata_source hfind
    have hdirect : ((direct index inspector).metadata id).exec l = (result, k) := by
      simp only [direct, fresh, Bool.false_eq_true, if_false, Run.exec_report_bind, inspection]
    rw [hdirect] at hread
    cases result with
    | error e => exact ⟨cache, hread, remembers.append (.inr (.inl rfl))⟩
    | ok m =>
      -- Only here the memory grows, by a module of which nothing was known.
      refine ⟨_, hread, fun other => ?_⟩
      rw [remember, fresh, if_neg Bool.false_ne_true, NameMap.find?_insert, remembers other,
        known_append]
      split
      · rename_i heq
        subst heq
        simp [fresh, untold, Except.toOption]
      · rw [Option.or_none]

/-! ## Counting what is remembered -/

theorem isSome_toOption {ε α : Type} (result : Except ε α) :
    result.toOption.isSome = result.isOk := by
  cases result with
  | ok a => rfl
  | error e => rfl

/-- A module has succeeded if something is known of it and it is not in the index. -/
theorem mem_succeeded : id ∈ succeeded index earlier ↔
    index.wasProcessed id = false ∧ (known earlier id).isSome := by
  simp only [succeeded, known, List.mem_toFinset, List.mem_map, List.mem_filter, Bool.and_eq_true,
    Bool.not_eq_true', List.findSome?_isSome_iff]
  constructor
  · intro h
    obtain ⟨reading, ⟨hmem, fresh, ok⟩, rfl⟩ := h
    exact ⟨fresh, reading, hmem, by rw [if_pos rfl, isSome_toOption, ok]⟩
  · intro h
    obtain ⟨fresh, reading, hmem, told⟩ := h
    split at told
    · rename_i heq
      subst heq
      exact ⟨reading, ⟨hmem, fresh, (isSome_toOption _).symm.trans told⟩, rfl⟩
    · cases told

/-- The memory has one entry for each module that succeeded. -/
theorem Remembers.size_eq (remembers : Remembers index cache earlier) :
    cache.size = (succeeded index earlier).card := by
  apply NameMap.size_eq_card
  intro id
  rw [mem_succeeded, NameMap.contains, remembers id]
  cases index.wasProcessed id with
  | true => simp
  | false => simp

/-! ## Runs of a pass -/

theorem exec_orderHint (source : Source σ) (id : ModuleId) (l : Ledger σ) :
    (source.orderHint id).exec l =
      (((source.metadata id).exec l).1.map (·.order), ((source.metadata id).exec l).2) :=
  Run.exec_map ..

theorem exec_attempt {ε α : Type} (run : Run σ ε α) :
    (attempt run).exec l = (.ok (run.exec l).1, (run.exec l).2) :=
  rfl

/-- The source of a pass answers a query as it should, and goes on to remember. -/
theorem Remembers.step (remembers : Remembers index cache earlier)
    (answers : Answers index inspector earlier l query answer next k) :
    ∃ after, (put index inspector query).exec (l.beside cache) = (.ok answer, k.beside after) ∧
      Remembers index after next := by
  cases answers with
  | metadata reads =>
    obtain ⟨after, hread, remembers⟩ := remembers.reads reads
    refine ⟨after, ?_, remembers⟩
    simp only [put, Run.exec_bind, exec_attempt, hread, Run.exec_pure]
  | orderHint reads =>
    obtain ⟨after, hread, remembers⟩ := remembers.reads reads
    refine ⟨after, ?_, remembers⟩
    simp only [put, Run.exec_bind, exec_attempt, exec_orderHint, hread, Run.exec_pure]
  | wasPrecomputed => exact ⟨cache, rfl, remembers⟩
  | inspected =>
    refine ⟨cache, ?_, remembers⟩
    simp only [put, Run.exec_bind, Run.exec_get, Run.exec_pure, Ledger.world_beside,
      remembers.size_eq]

/-- Putting queries to the source gives the answers of the course, since the memory holds what is
    known. -/
theorem Course.exec_mapM_put (course : Course index inspector earlier l queries answers all m)
    (remembers : Remembers index cache earlier) :
    ∃ after, (queries.mapM (put index inspector)).exec (l.beside cache) =
      (.ok answers, m.beside after) := by
  induction course generalizing cache with
  | done => exact ⟨cache, rfl⟩
  | step first _ ih =>
    obtain ⟨next, hput, remembers⟩ := remembers.step first
    obtain ⟨after, hrest⟩ := ih remembers
    refine ⟨after, ?_⟩
    simp only [List.mapM_cons, Run.exec_bind, hput, hrest, Run.exec_pure]

/-- A new source answers as it should. -/
theorem Course.exec_converse (course : Course index inspector [] l queries answers all m) :
    (converse index inspector queries).exec l = (.ok answers, m) := by
  obtain ⟨after, hrun⟩ := course.exec_mapM_put (remembers_nil index)
  simp only [converse, Run.exec_bind, Run.exec_withLocal, hrun]
  rfl

/-! ## Calls of the inspector -/

/-- A reading calls the inspector at most once. -/
theorem calls_append (earlier : List Reading) (reading : Reading) :
    calls (earlier ++ [reading]) =
      calls earlier ++ if reading.inspected then [reading.id] else [] := by
  unfold calls
  cases h : reading.inspected with
  | true => simp [h]
  | false => simp [h]

/-- Readings from a ledger, and what is known when the inspector is watched and set apart: it was
    called for these readings, and before each call, and nowhere else, an event was written. -/
structure Tallied (readings : List Reading) (l : Ledger σ)
    (watched : Ledger ((σ × History) × Chronicle)) : Prop where
  whole : watched.whole = l.beside { inspected := calls readings }
  own : watched.own = (calls readings).map .inspecting

/-- A reading without an inspection leaves the history of the inspector as it is. -/
theorem Tallied.of_not_inspected {watched : Ledger ((σ × History) × Chronicle)}
    (tallied : Tallied earlier l watched) (h : reading.inspected = false) :
    Tallied (earlier ++ [reading]) l watched := by
  have hcalls : calls (earlier ++ [reading]) = calls earlier := by
    rw [calls_append, h]
    exact List.append_nil _
  exact ⟨hcalls ▸ tallied.whole, hcalls ▸ tallied.own⟩

/-- A watched inspector is called when it should be, and answers what it would answer. -/
theorem Reads.watched (reads : Reads index inspector earlier id l reading k)
    {w : Ledger ((σ × History) × Chronicle)} (tallied : Tallied earlier l w) :
    ∃ w', Reads index inspector.watched.apart earlier id w reading w' ∧
      Tallied (earlier ++ [reading]) k w' := by
  cases reads with
  | indexed indexed => exact ⟨w, .indexed indexed, tallied.of_not_inspected rfl⟩
  | recalled fresh told => exact ⟨w, .recalled fresh told, tallied.of_not_inspected rfl⟩
  | inspected fresh untold inspection =>
    obtain ⟨whole, own⟩ := tallied
    have hwatched := inspector.records_watched id (l.logged [.inspecting id])
      { inspected := calls earlier }
    obtain ⟨w', hexec, whole', own'⟩ :=
      (inspector.watched id).exists_exec_apart (w.logged [.inspecting id])
    rw [Ledger.whole_logged, whole, Ledger.beside_logged, hwatched, inspection] at hexec whole'
    refine ⟨w', .inspected fresh untold hexec, ?_, ?_⟩
    · rw [whole', calls_append]
      rfl
    · rw [own', Ledger.own_logged, own, calls_append, List.map_append]
      rfl

/-- An answer is the same if the inspector is watched, and its calls are tallied. -/
theorem Answers.watched (answers : Answers index inspector earlier l query answer next k)
    {w : Ledger ((σ × History) × Chronicle)} (tallied : Tallied earlier l w) :
    ∃ w', Answers index inspector.watched.apart earlier w query answer next w' ∧
      Tallied next k w' := by
  cases answers with
  | metadata reads =>
    obtain ⟨w', reads, tallied⟩ := reads.watched tallied
    exact ⟨w', .metadata reads, tallied⟩
  | orderHint reads =>
    obtain ⟨w', reads, tallied⟩ := reads.watched tallied
    exact ⟨w', .orderHint reads, tallied⟩
  | wasPrecomputed => exact ⟨w, .wasPrecomputed, tallied⟩
  | inspected => exact ⟨w, .inspected, tallied⟩

/-- A course is the same if the inspector is watched, and all its calls are tallied. -/
theorem Course.watched (course : Course index inspector earlier l queries answers all m)
    {w : Ledger ((σ × History) × Chronicle)} (tallied : Tallied earlier l w) :
    ∃ w', Course index inspector.watched.apart earlier w queries answers all w' ∧
      Tallied all m w' := by
  induction course generalizing w with
  | done => exact ⟨w, .done, tallied⟩
  | step first _ ih =>
    obtain ⟨k, first, tallied⟩ := first.watched tallied
    obtain ⟨w', later, tallied⟩ := ih tallied
    exact ⟨w', .step first later, tallied⟩

/-! ## An inspector that knows nothing -/

/-- A reading gives what the index alone answers for the module. -/
def FromIndex (σ : Type) (index : Index) (reading : Reading) : Prop :=
  Run.Gives (index.source.metadata reading.id : Run σ MetadataFailure Metadata) reading.result

theorem exists_of_known {metadata : Metadata} (told : known earlier id = some metadata) :
    ∃ reading ∈ earlier, reading.id = id ∧ reading.result = .ok metadata := by
  obtain ⟨reading, hmem, hread⟩ := List.exists_of_findSome?_eq_some told
  split at hread
  · rename_i heq
    refine ⟨reading, hmem, heq, ?_⟩
    cases hresult : reading.result with
    | error e =>
      rw [hresult] at hread
      cases hread
    | ok m =>
      rw [hresult] at hread
      cases hread
      rfl
  · cases hread

/-- An inspector that knows nothing leaves only the index to tell something. -/
theorem Reads.fromIndex (reads : Reads index inspector earlier id l reading k)
    (blank : ∀ id, Run.Gives (inspector id) (.ok {}))
    (h : ∀ reading ∈ earlier, FromIndex σ index reading) : FromIndex σ index reading := by
  cases reads with
  | indexed indexed =>
    intro l
    simp only [Index.source, indexed, if_true, Run.exec_ofExcept]
  | recalled fresh told =>
    obtain ⟨reading, hmem, rfl, hresult⟩ := exists_of_known told
    exact hresult ▸ h reading hmem
  | inspected fresh untold inspection =>
    intro l'
    have hresult := blank id (l.logged [.inspecting id])
    rw [inspection] at hresult
    simp only [Index.source, fresh, Bool.false_eq_true, if_false, Run.exec_pure]
    exact hresult.symm

theorem Answers.fromIndex (answers : Answers index inspector earlier l query answer next k)
    (blank : ∀ id, Run.Gives (inspector id) (.ok {}))
    (h : ∀ reading ∈ earlier, FromIndex σ index reading) :
    ∀ reading ∈ next, FromIndex σ index reading := by
  cases answers with
  | metadata reads =>
    exact List.forall_mem_append.2 ⟨h, List.forall_mem_singleton.2 (reads.fromIndex blank h)⟩
  | orderHint reads =>
    exact List.forall_mem_append.2 ⟨h, List.forall_mem_singleton.2 (reads.fromIndex blank h)⟩
  | wasPrecomputed => exact h
  | inspected => exact h

theorem Course.fromIndex (course : Course index inspector earlier l queries answers all m)
    (blank : ∀ id, Run.Gives (inspector id) (.ok {}))
    (h : ∀ reading ∈ earlier, FromIndex σ index reading) :
    ∀ reading ∈ all, FromIndex σ index reading := by
  induction course with
  | done => exact h
  | step first _ ih => exact ih (first.fromIndex blank h)

/-! ## All about a pass -/

/-- The source of a new pass, from whatever ledger earlier passes left, answers any queries by
    what it read for the earlier ones of them. The inspector is called where `Course` says so, and
    each call is logged. If the inspector has nothing to tell of any module, the index alone would
    answer the same. -/
theorem answers_in_pass (index : Index) (inspector : Inspector σ) (queries : List Query)
    (l : Ledger σ) :
    ∃ answers readings m,
      (converse index inspector queries).exec l = (.ok answers, m) ∧
      Course index inspector [] l queries answers readings m ∧
      (∃ w, (converse index inspector.watched.apart queries).exec (l.beside ∅).apart =
          (.ok answers, w) ∧ Tallied readings m w) ∧
      ((∀ id, Run.Gives (inspector id) (.ok {})) →
        ∀ reading ∈ readings, FromIndex σ index reading) := by
  -- The account is found without a run. That runs answer by it holds for any inspector, so also
  -- for the watched one, which has the same account.
  obtain ⟨answers, readings, m, course⟩ := exists_course index inspector [] l queries
  have tallied : Tallied [] l (l.beside (∅ : History)).apart := ⟨Ledger.whole_apart _, rfl⟩
  obtain ⟨w, watched, tallied⟩ := course.watched tallied
  refine ⟨answers, readings, m, course.exec_converse, course,
    ⟨w, watched.exec_converse, tallied⟩, fun blank => ?_⟩
  exact course.fromIndex blank fun _ h => absurd h List.not_mem_nil

/-- An inspector that is busy at first and then changes its mind. The second pass asks it again,
    where the first one remembers. An inspector that tells nothing does not show. -/
theorem answers_in_pass_of_scripted :
    let index : Index := ⟨.ofList [("bad", .ofList [("order", .string "high")])]⟩
    let declaring : Int → Metadata := fun n => { order := (OrderHint.ofInt? n).getD default }
    let inspector := Inspector.scripted
      (.ofList [("x", [.error "busy", .ok (declaring 1), .ok (declaring 2)])])
    let queries : List Query :=
      [.metadata "x", .inspected, .orderHint "x", .metadata "x", .metadata "bad",
        .wasPrecomputed "x", .inspected]
    let between : Ledger (List ModuleId) := ⟨["x", "x"], [.inspecting "x", .inspecting "x"]⟩
    (converse index inspector queries).exec ⟨[], []⟩ =
        (.ok [.metadata (.error (.inspection "x" "busy")), .inspected 0,
            .orderHint (.ok (declaring 1).order), .metadata (.ok (declaring 1)),
            .metadata (.error (.malformed ⟨"bad", "order", .integer⟩)), .wasPrecomputed false,
            .inspected 1],
          between) ∧
      (converse index inspector [.orderHint "x", .inspected]).exec between =
        (.ok [.orderHint (.ok (declaring 2).order), .inspected 1],
          ⟨["x", "x", "x"], [.inspecting "x", .inspecting "x", .inspecting "x"]⟩) ∧
      (∀ id, Run.Gives ((Inspector.blank : Inspector Unit) id) (.ok {})) ∧
      ∃ answers readings m,
        (converse index (Inspector.blank : Inspector Unit) queries).exec ⟨(), []⟩ =
            (.ok answers, m) ∧
          Course index Inspector.blank [] ⟨(), []⟩ queries answers readings m ∧
          ∀ reading ∈ readings, FromIndex Unit index reading := by
  intro index declaring inspector queries between
  have blank : ∀ id, Run.Gives ((Inspector.blank : Inspector Unit) id) (.ok {}) :=
    fun _ => .pure _
  obtain ⟨answers, readings, m, hrun, course, -, alone⟩ :=
    answers_in_pass index (Inspector.blank : Inspector Unit) queries ⟨(), []⟩
  refine ⟨by cbv, by cbv, blank, answers, readings, m, hrun, course, alone blank⟩

end Pass

end Activation
