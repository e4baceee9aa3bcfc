-- SUMMARY: Candidates divided position by position, by any number of verdict lists.
import Activation.Proofs.Filter
import Mathlib.Data.List.Basic

/-!
# Verdicts by position

Verdicts are about positions and not about ids, so of a candidate that stands in a list twice one
occurrence may be kept and the other removed. A position is kept when every list of verdicts
keeps it. The order of the lists does not matter, and neither does a list that is there twice.

Verdicts are combined by conjunction. Marking what any of them rejects, and then dividing by the
marks in one pass over the candidates, comes to the same.
-/

namespace Activation

namespace Sieved

variable {candidates : List ModuleId} {keep : List Bool} {verdicts verdicts' : List (List Bool)}

/-- Every list of verdicts keeps what stands at a position. -/
abbrev KeptByAll (verdicts : List (List Bool)) (position : Nat) : Prop :=
  ∀ given ∈ verdicts, given[position]? = some true

/-- The candidates at the positions with a property, in order. -/
def candidatesAt (candidates : List ModuleId) (p : Nat → Prop) [DecidablePred p] :
    List ModuleId :=
  (candidates.zipIdx.filter fun e => p e.2).map (·.1)

/-- The candidates at the positions that all verdicts keep, and those at the others. -/
def byPosition (candidates : List ModuleId) (verdicts : List (List Bool)) : Sieved where
  kept := candidatesAt candidates (KeptByAll verdicts)
  removed := candidatesAt candidates fun i => ¬ KeptByAll verdicts i

theorem candidatesAt_congr {p q : Nat → Prop} [DecidablePred p] [DecidablePred q]
    (h : ∀ i < candidates.length, p i ↔ q i) :
    candidatesAt candidates p = candidatesAt candidates q := by
  unfold candidatesAt
  congr 1
  apply List.filter_congr
  intro e he
  have hlt : e.2 < candidates.length := by
    simpa using (List.mem_zipIdx he).2.1
  exact decide_eq_decide.2 (h e.2 hlt)

/-- The same verdicts divide alike, in whatever order and however often they are given. -/
theorem byPosition_congr (h : ∀ given, given ∈ verdicts' ↔ given ∈ verdicts) :
    byPosition candidates verdicts' = byPosition candidates verdicts := by
  have hall : ∀ i, KeptByAll verdicts' i ↔ KeptByAll verdicts i := by
    intro i
    simp only [KeptByAll, h]
  unfold byPosition
  congr 1
  · exact candidatesAt_congr fun i _ => hall i
  · exact candidatesAt_congr fun i _ => not_congr (hall i)

/-! ## One list of verdicts -/

theorem zip_eq_map_zipIdx (h : keep.length = candidates.length) :
    candidates.zip keep =
      candidates.zipIdx.map fun e => (e.1, decide (keep[e.2]? = some true)) := by
  apply List.ext_getElem
  · simp [h]
  · intro i hleft hright
    have hi : i < keep.length := by
      simp only [List.length_zip] at hleft
      omega
    simp [List.getElem?_eq_getElem hi]

/-- Verdicts on all candidates divide them by position. -/
theorem divide_eq_candidatesAt (h : keep.length = candidates.length) :
    divide candidates keep =
      { kept := candidatesAt candidates fun i => keep[i]? = some true
        removed := candidatesAt candidates fun i => ¬ keep[i]? = some true } := by
  unfold divide candidatesAt
  rw [zip_eq_map_zipIdx h]
  simp [List.filter_map, Function.comp_def]

/-- All is kept when no verdict is a rejection. -/
theorem divide_of_notMem (h : keep.length = candidates.length) (none : false ∉ keep) :
    divide candidates keep = { kept := candidates } := by
  induction candidates generalizing keep with
  | nil => rfl
  | cons id candidates ih =>
    cases keep with
    | nil => cases h
    | cons k keep =>
      simp only [List.mem_cons, not_or] at none
      cases k with
      | false => exact absurd rfl none.1
      | true => rw [divide_cons, ih (Nat.succ.inj h) none.2, if_pos rfl]

theorem removed_divide_ne_nil (h : keep.length = candidates.length) (rejection : false ∈ keep) :
    (divide candidates keep).removed ≠ [] := by
  induction candidates generalizing keep with
  | nil =>
    rw [List.length_eq_zero_iff.1 h] at rejection
    cases rejection
  | cons id candidates ih =>
    cases keep with
    | nil => cases h
    | cons k keep =>
      rw [divide_cons]
      cases k with
      | false => exact List.cons_ne_nil _ _
      | true => exact ih (Nat.succ.inj h) (by simpa using rejection)

end Sieved

namespace Filter

open Sieved

variable {candidates : List ModuleId} {verdicts : List (List Bool)}

/-! ## Lists of verdicts combined -/

/-- A candidate is kept at the end if it was kept at the start and by all verdicts on its position.
    -/
theorem getElem?_foldl_zipWith (keep : List Bool) (i : Nat) :
    (verdicts.foldl (fun keep given => keep.zipWith (· && ·) given) keep)[i]? = some true ↔
      keep[i]? = some true ∧ KeptByAll verdicts i := by
  induction verdicts generalizing keep with
  | nil => simp [KeptByAll]
  | cons given verdicts ih =>
    simp only [List.foldl_cons, ih, List.getElem?_zipWith, KeptByAll, List.forall_mem_cons,
      ← and_assoc]
    refine and_congr_left fun _ => ?_
    cases keep[i]? with
    | none => simp
    | some k =>
      cases given[i]? with
      | none => simp
      | some k' => simp

/-- A position is kept by the combined verdicts when each of them keeps it. -/
theorem getElem?_unanimous {i : Nat} (hi : i < candidates.length) :
    (unanimous candidates verdicts)[i]? = some true ↔ KeptByAll verdicts i := by
  rw [unanimous, getElem?_foldl_zipWith]
  simp [hi]

/-- Verdicts that are as many as the candidates divide them by position. -/
theorem divide_unanimous (counts : ∀ given ∈ verdicts, given.length = candidates.length) :
    divide candidates (unanimous candidates verdicts) = byPosition candidates verdicts := by
  rw [divide_eq_candidatesAt (length_unanimous counts)]
  unfold byPosition
  congr 1
  · exact candidatesAt_congr fun i hi => getElem?_unanimous hi
  · exact candidatesAt_congr fun i hi => not_congr (getElem?_unanimous hi)

/-! ## Marking rejections -/

/-- Marks, and one more wherever verdicts reject. -/
def mark (skip verdicts : List Bool) : List Bool :=
  skip.zipWith (fun marked keep => marked || !keep) verdicts

/-- Divide candidates in one pass: those with a mark are removed, the others are kept. -/
def divideMarked (candidates : List ModuleId) (skip : List Bool) : Sieved :=
  (candidates.zip skip).foldl
    (fun sieved e =>
      if e.2 then { sieved with removed := sieved.removed ++ [e.1] }
      else { sieved with kept := sieved.kept ++ [e.1] })
    {}

/-- What has a mark is what not all verdicts keep. -/
theorem foldl_mark (verdicts : List (List Bool)) (keep : List Bool) :
    verdicts.foldl mark (keep.map (!·)) =
      (verdicts.foldl (fun keep given => keep.zipWith (· && ·) given) keep).map (!·) := by
  induction verdicts generalizing keep with
  | nil => rfl
  | cons given verdicts ih =>
    have hmark : mark (keep.map (!·)) given = (keep.zipWith (· && ·) given).map (!·) := by
      simp [mark, List.zipWith_map_left, List.map_zipWith, Bool.not_and]
    rw [List.foldl_cons, List.foldl_cons, hmark, ih]

/-- Marks for removal say the contrary of verdicts. -/
theorem divideMarked_map_not (candidates : List ModuleId) (keep : List Bool) :
    divideMarked candidates (keep.map (!·)) = divide candidates keep := by
  have hfold : ∀ (entries : List (ModuleId × Bool)) (start : Sieved),
      (entries.map fun e => (e.1, !e.2)).foldl
          (fun sieved e =>
            if e.2 then { sieved with removed := sieved.removed ++ [e.1] }
            else { sieved with kept := sieved.kept ++ [e.1] })
          start =
        { kept := start.kept ++ (entries.filter (·.2)).map (·.1)
          removed := start.removed ++ (entries.filter (!·.2)).map (·.1) } := by
    intro entries
    induction entries with
    | nil => simp
    | cons e entries ih =>
      intro start
      rw [List.map_cons, List.foldl_cons, ih]
      obtain ⟨id, k⟩ := e
      cases k with
      | true => simp
      | false => simp
  unfold divideMarked
  rw [List.zip_map_right]
  exact hfold (candidates.zip keep) {}

end Filter

end Activation
