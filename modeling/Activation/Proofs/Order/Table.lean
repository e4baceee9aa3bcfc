-- SUMMARY: What the walk starts from: the baseline, the ranks in it and the predecessor table.
import Activation.Proofs.Order.Topological
import Mathlib

/-!
# Baseline and predecessor table

Before the walk the modules that were read stand strictly by hint and name, the rank of a name
is its position among them, and the row of a position lists the positions of all direct
predecessors (`Tabulates`). A precedence is entered into the table at its place in an ascending
row. Rows that are filled as the modules declare, and sorted and freed of repeats at the end,
are the same rows (`get_precedence`), because an ascending list is determined by its members.
-/

namespace Activation

/-! ## Sorting a list and dropping repeats -/

namespace Ascending

variable {α : Type} [LinearOrder α] {l m : List α} {a : α}

/-- A list sorted, where of neighbours that are equal one is kept. -/
def sorted (l : List α) : List α := (l.mergeSort (· ≤ ·)).destutter (· ≠ ·)

theorem sorted_eq_dedup (l : List α) : sorted l = (l.mergeSort (· ≤ ·)).dedup :=
  (List.pairwise_mergeSort' (· ≤ ·) l).destutter_eq_dedup

theorem mem_sorted : a ∈ sorted l ↔ a ∈ l := by
  rw [sorted_eq_dedup, List.mem_dedup, List.mem_mergeSort]

/-- Sorting puts equal members side by side, so the list is strict once repeats are dropped. -/
theorem pairwise_sorted (l : List α) : (sorted l).Pairwise (· < ·) := by
  have hle : (l.mergeSort (· ≤ ·)).dedup.Pairwise (· ≤ ·) :=
    (List.pairwise_mergeSort' (· ≤ ·) l).sublist (List.dedup_sublist _)
  have hne : (l.mergeSort (· ≤ ·)).dedup.Nodup := List.nodup_dedup _
  rw [sorted_eq_dedup]
  exact (hle.and hne).imp fun h => lt_of_le_of_ne h.1 h.2

/-- Of the lists with the same members, one is strictly ascending. -/
theorem eq_sorted (h : m.Pairwise (· < ·)) (same : ∀ x, x ∈ m ↔ x ∈ l) : m = sorted l :=
  eq_of_mem_iff lt_asymm h (pairwise_sorted l) fun x => (same x).trans mem_sorted.symm

end Ascending

theorem NameSet.toList_ofList (names : List String) :
    (NameSet.ofList names).toList = Ascending.sorted names :=
  Ascending.eq_sorted (NameSet.ofList names).ascending fun _ => NameSet.mem_ofList

namespace Order

/-! ## Tables with ascending rows -/

section Rows

variable {n : Nat} {table table' : Precedence n}

def Precedence.Ascending (table : Precedence n) : Prop := ∀ p, (table.get p).Pairwise (· < ·)

theorem Precedence.Ascending.add (h : table.Ascending) (e : Edge n) : (table.add e).Ascending := by
  intro p
  rw [get_add]
  split
  · apply Activation.Ascending.pairwise_place Fin.lt_trans
    · intro a b hnot hne
      exact lt_of_le_of_ne (Fin.not_lt.1 hnot) hne.symm
    · exact h e.later
  · exact h p

theorem Precedence.Ascending.foldl_add (h : table.Ascending) (es : List (Edge n)) :
    (es.foldl Precedence.add table).Ascending := by
  induction es generalizing table with
  | nil => exact h
  | cons e es ih => exact ih (h.add e)

theorem ascending_precedence (modules : Array Declared) : (precedence modules).Ascending := by
  have hempty : Precedence.Ascending (Vector.replicate modules.size []) := by
    intro p
    rw [get_replicate]
    exact List.Pairwise.nil
  exact hempty.foldl_add (edges modules)

/-- Tables with ascending rows are the same if they hold the same precedences. -/
theorem Precedence.Ascending.eq (h : table.Ascending) (h' : table'.Ascending)
    (same : ∀ q p, Direct table q p ↔ Direct table' q p) : table = table' := by
  apply Vector.ext
  intro i hi
  exact Activation.Ascending.eq_of_mem_iff Fin.lt_asymm (h ⟨i, hi⟩) (h' ⟨i, hi⟩)
    fun q => same q ⟨i, hi⟩

end Rows

section Entries

variable {modules : Array Declared}

/-- What the modules of an array enter into the row of a position, in the order in which they
    declare it. -/
def entered (modules : Array Declared) (p : Fin modules.size) : List (Fin modules.size) :=
  ((edges modules).filter fun e => e.later = p).map (·.earlier)

theorem mem_entered {q p : Fin modules.size} :
    q ∈ entered modules p ↔ (⟨q, p⟩ : Edge modules.size) ∈ edges modules := by
  simp only [entered, List.mem_map, List.mem_filter, decide_eq_true_eq]
  constructor
  · rintro ⟨⟨_, _⟩, ⟨hedge, rfl⟩, rfl⟩
    exact hedge
  · intro hedge
    exact ⟨_, ⟨hedge, rfl⟩, rfl⟩

/-- Rows may as well be sorted and freed of repeats when all is entered. -/
theorem get_precedence (modules : Array Declared) (p : Fin modules.size) :
    (precedence modules).get p = Activation.Ascending.sorted (entered modules p) :=
  Activation.Ascending.eq_sorted (ascending_precedence modules p)
    fun _ => mem_precedence.trans mem_entered.symm

theorem rank?_eq_none_iff {id : ModuleId} :
    rank? modules id = none ↔ id ∉ modules.toList.map (·.id) := by
  simp only [rank?, Array.findFinIdx?_eq_none_iff, decide_eq_true_eq, List.mem_map,
    Array.mem_toList_iff, not_exists, not_and]

end Entries

/-! ## What the walk starts from -/

variable {modules : List Declared}

/-- The baseline ascends by hint and then by name, strictly, since names differ. -/
theorem ByName.strictMono_ranked (h : ByName modules) :
    StrictMono fun p : Fin (ranked modules).size =>
      toLex ((moduleAt (ranked modules) p).metadata.order.toInt,
        (moduleAt (ranked modules) p).id) := by
  intro q p hlt
  have hearlier : (moduleAt (ranked modules) q).Earlier (moduleAt (ranked modules) p) :=
    List.pairwise_iff_getElem.1 h.pairwise_baseline q.val p.val q.isLt p.isLt hlt
  refine Prod.Lex.toLex_lt_toLex.2 ?_
  cases hearlier with
  | inl hhint => exact .inl hhint
  | inr hname => exact .inr ⟨congrArg OrderHint.toInt hname.1, hname.2⟩

/-- An array of modules and a table of its positions are as the walk needs them for candidates
    whose modules were read. -/
structure Tabulates (candidates : List ModuleId) (modules : List Declared)
    (placed : Array Declared) (table : Precedence placed.size) : Prop where
  /-- The array holds what was read, each module once. -/
  modules_perm : placed.toList.Perm modules
  /-- These are the distinct candidates. -/
  candidates_perm : (placed.toList.map (·.id)).Perm candidates.dedup
  /-- They stand by hint, as an integer of the whole range, and by name where hints are equal. -/
  ascending : StrictMono fun p : Fin placed.size =>
    toLex ((moduleAt placed p).metadata.order.toInt, (moduleAt placed p).id)
  /-- The rank of a name is the position at which it stands. -/
  rank_iff : ∀ id p, rank? placed id = some p ↔ (moduleAt placed p).id = id
  /-- Only candidates have ranks. -/
  unranked_iff : ∀ id, rank? placed id = none ↔ id ∉ candidates
  /-- Rows are strictly ascending. Their members are positions of the array by their type. -/
  rows_ascending : ∀ p, (table.get p).Pairwise (· < ·)
  /-- A row has the positions of all that its module names in `after` or that name it in
      `before`, its own position included. -/
  mem_row_iff : ∀ q p, q ∈ table.get p ↔
    (moduleAt placed q).id ∈ (moduleAt placed p).metadata.after ∨
      (moduleAt placed p).id ∈ (moduleAt placed q).metadata.before
  /-- Sorting what the modules enter into a row, and dropping repeats, gives the row. -/
  row_eq : ∀ p, table.get p = Activation.Ascending.sorted (entered placed p)

section Reads

variable {σ : Type} {source : Source σ} {candidates : List ModuleId} {l m : Ledger σ}

theorem Reads.map_id_eq_sorted
    (reads : Reads source (NameSet.ofList candidates).toList l modules m) :
    modules.map (·.id) = Activation.Ascending.sorted candidates := by
  rw [reads.map_id, NameSet.toList_ofList]

/-- What the metadata of candidates leads to before the walk is the table of the specification. -/
theorem Reads.tabulates (reads : Reads source (NameSet.ofList candidates).toList l modules m) :
    Tabulates candidates modules (ranked modules) (precedence (ranked modules)) where
  modules_perm := baseline_perm modules
  candidates_perm := reads.baselineIds_perm
  ascending := reads.byName.strictMono_ranked
  rank_iff _ _ := rank?_eq_some_iff reads.byName.distinct_ranked
  unranked_iff id := by
    rw [rank?_eq_none_iff, not_iff_not, ← reads.mem_ids]
    exact mem_baselineIds
  rows_ascending := ascending_precedence _
  mem_row_iff _ _ := direct_precedence_iff reads.byName.distinct_ranked
  row_eq := get_precedence _

/-- Candidates that were read stand, before the walk, in strictly ascending order of hint and
    name, ranks are their positions, and the table has in each row the direct predecessors of
    one module, strictly ascending. What the walk makes of that table is the order. -/
theorem tabulated_of_order
    (reads : Reads source (NameSet.ofList candidates).toList l modules m) :
    modules.map (·.id) = Activation.Ascending.sorted candidates ∧
      Tabulates candidates modules (ranked modules) (precedence (ranked modules)) ∧
      (∀ out, (∃ after, (order source candidates).exec l = (.ok out, after)) ↔
        ∃ positions, walk (precedence (ranked modules)) = .ok positions ∧
          positions.map (fun p => (moduleAt (ranked modules) p).id) = out) ∧
      ∀ e, (∃ after, (order source candidates).exec l = (.error e, after)) ↔
        ∃ back, walk (precedence (ranked modules)) = .error back ∧
          e = .cycleDetected (moduleAt (ranked modules) back.node).id
            (moduleAt (ranked modules) back.predecessor).id := by
  refine ⟨reads.map_id_eq_sorted, reads.tabulates, fun out => ?_, fun e => ?_⟩
  · rw [exists_order_eq_ok_iff reads, arrange_eq_ok_iff]
  · rw [exists_order_eq_error_iff reads]
    simp only [arrange_eq_error_iff]
    constructor
    · rintro ⟨-, ⟨back, hwalk, rfl⟩, rfl⟩
      exact ⟨back, hwalk, rfl⟩
    · rintro ⟨back, hwalk, rfl⟩
      exact ⟨_, ⟨back, hwalk, rfl⟩, rfl⟩

end Reads

/-- Four modules with the least and the greatest hint among them. The rows of the last two are
    entered by several modules, one of them with a repeat and the other out of order, and one
    module names itself. -/
theorem tabulated_of_order_of_extremes :
    let declares : ModuleId → Metadata := fun id =>
      if id = "a" then { after := NameSet.ofList ["x", "d", "c"] }
      else if id = "b" then
        { order := { toInt := -2147483648 }, before := NameSet.ofList ["y", "a"] }
      else if id = "c" then { order := { toInt := 0 }, before := NameSet.ofList ["d", "a"] }
      else { order := { toInt := 0 }, after := NameSet.ofList ["d", "b"] }
    let source : Source Unit :=
      { wasPrecomputed := fun _ => false
        metadata := fun id => return declares id }
    let candidates := ["d", "b", "a", "d", "c"]
    let modules : List Declared := ["a", "b", "c", "d"].map fun id => ⟨id, declares id⟩
    let l : Ledger Unit := ⟨(), []⟩
    Reads source (NameSet.ofList candidates).toList l modules l ∧
      baselineIds modules = ["b", "c", "d", "a"] ∧
      (List.finRange (ranked modules).size).map
          (fun p => (entered (ranked modules) p).map Fin.val) =
        [[], [], [1, 0, 2], [0, 1, 1, 2]] ∧
      (precedence (ranked modules)).toList.map (·.map Fin.val) =
        [[], [], [0, 1, 2], [0, 1, 2]] ∧
      Tabulates candidates modules (ranked modules) (precedence (ranked modules)) ∧
      (order source candidates).exec l = (.error (.cycleDetected "d" "d"), l) ∧
      ∃ back, walk (precedence (ranked modules)) = .error back ∧
        SelectionFailure.cycleDetected "d" "d" =
          .cycleDetected (moduleAt (ranked modules) back.node).id
            (moduleAt (ranked modules) back.predecessor).id := by
  intro declares source candidates modules l
  have reads : Reads source (NameSet.ofList candidates).toList l modules l :=
    .cons rfl (.cons rfl (.cons rfl (.cons rfl .nil)))
  have hids : baselineIds modules = ["b", "c", "d", "a"] := by
    simp only [modules, declares]
    cbv
  have hentered : (List.finRange (ranked modules).size).map
      (fun p => (entered (ranked modules) p).map Fin.val) = [[], [], [1, 0, 2], [0, 1, 1, 2]] := by
    simp only [modules, declares]
    cbv
  have hrows : (precedence (ranked modules)).toList.map (·.map Fin.val) =
      [[], [], [0, 1, 2], [0, 1, 2]] := by
    simp only [modules, declares]
    cbv
  have harrange : arrange modules = .error ⟨"d", "d"⟩ := by
    simp only [modules, declares]
    cbv
  have horder : (order source candidates).exec l = (.error (.cycleDetected "d" "d"), l) := by
    rw [exec_order_of_reads reads, harrange]
  obtain ⟨-, htable, -, herror⟩ := tabulated_of_order reads
  exact ⟨reads, hids, hentered, hrows, htable, horder, (herror _).1 ⟨l, horder⟩⟩

end Order

end Activation
