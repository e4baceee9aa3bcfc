-- SUMMARY: Which modules must precede which, and the predecessor table as its image.
import Activation.Order.Precedence
import Activation.Proofs.Walk.Invariant

/-!
# Constraints between modules

`MustPrecede` is the derived constraint on modules: either side of a pair may declare
it. The predecessor table says the same about positions (`direct_precedence_iff`), so
chains of constraints and chains in the table are the same chains
(`leads_precedence_iff`).
-/

namespace Activation.Order

/-- One module of a list must precede another, as either of them declares. -/
def MustPrecede (modules : List Declared) (a b : ModuleId) : Prop :=
  ∃ x ∈ modules, ∃ y ∈ modules, x.id = a ∧ y.id = b ∧
    (a ∈ y.metadata.after ∨ b ∈ x.metadata.before)

/-- A chain of constraints leads from one module to another. -/
abbrev Chain (modules : List Declared) : ModuleId → ModuleId → Prop :=
  Relation.TransGen (MustPrecede modules)

theorem mustPrecede_congr {l m : List Declared} (h : ∀ d, d ∈ l ↔ d ∈ m) :
    MustPrecede l = MustPrecede m := by
  funext a b
  simp only [MustPrecede, h]

theorem MustPrecede.mem_left {modules : List Declared} {a b : ModuleId}
    (h : MustPrecede modules a b) : a ∈ modules.map (·.id) := by
  obtain ⟨x, hx, -, -, rfl, -⟩ := h
  exact List.mem_map_of_mem hx

theorem MustPrecede.mem_right {modules : List Declared} {a b : ModuleId}
    (h : MustPrecede modules a b) : b ∈ modules.map (·.id) := by
  obtain ⟨-, -, y, hy, -, rfl, -⟩ := h
  exact List.mem_map_of_mem hy

theorem Chain.mem_left {modules : List Declared} {a b : ModuleId} (h : Chain modules a b) :
    a ∈ modules.map (·.id) := by
  cases h using Relation.TransGen.head_induction_on with
  | single h => exact h.mem_left
  | head h _ _ => exact h.mem_left

theorem Chain.mem_right {modules : List Declared} {a b : ModuleId} (h : Chain modules a b) :
    b ∈ modules.map (·.id) := by
  cases h with
  | single h => exact h.mem_right
  | tail _ h => exact h.mem_right

/-! ## The table of an array of modules -/

theorem get_add {n : Nat} {table : Precedence n} {e : Edge n} {p : Fin n} :
    (table.add e).get p =
      if e.later = p then Ascending.place e.earlier (table.get e.later) else table.get p :=
  get_set

/-- An edge is added to the row of its later end, and to no other. -/
theorem mem_add {n : Nat} {table : Precedence n} {e : Edge n} {q p : Fin n} :
    q ∈ (table.add e).get p ↔ q ∈ table.get p ∨ (⟨q, p⟩ : Edge n) = e := by
  obtain ⟨earlier, later⟩ := e
  rw [get_add, Edge.mk.injEq]
  split
  · rename_i h
    subst h
    simp [Ascending.mem_place, or_comm]
  · rename_i h
    simp [Ne.symm h]

theorem mem_foldl_add {n : Nat} {es : List (Edge n)} {table : Precedence n} {q p : Fin n} :
    q ∈ (es.foldl Precedence.add table).get p ↔ q ∈ table.get p ∨ (⟨q, p⟩ : Edge n) ∈ es := by
  induction es generalizing table with
  | nil => simp
  | cons e es ih => rw [List.foldl_cons, ih, mem_add, List.mem_cons, or_assoc]

section Table

variable {modules : Array Declared}

theorem mem_precedence {q p : Fin modules.size} :
    q ∈ (precedence modules).get p ↔ (⟨q, p⟩ : Edge modules.size) ∈ edges modules := by
  rw [precedence, mem_foldl_add, get_replicate]
  simp

def moduleAt (modules : Array Declared) (p : Fin modules.size) : Declared :=
  modules.toVector.get p

theorem moduleAt_mem (p : Fin modules.size) : moduleAt modules p ∈ modules.toList :=
  Array.mem_toList_iff.2 (Array.getElem_mem p.isLt)

def Distinct (modules : Array Declared) : Prop :=
  ∀ p q : Fin modules.size, (moduleAt modules p).id = (moduleAt modules q).id → p = q

/-- The rank of a name is where its module stands, as names are distinct. -/
theorem rank?_eq_some_iff (hdistinct : Distinct modules) {id : ModuleId} {p : Fin modules.size} :
    rank? modules id = some p ↔ (moduleAt modules p).id = id := by
  rw [rank?, Array.findFinIdx?_eq_some_iff]
  constructor
  · rintro ⟨h, -⟩
    exact of_decide_eq_true h
  · intro h
    refine ⟨decide_eq_true h, fun j hj => ?_⟩
    intro hfound
    have heq := hdistinct ⟨j, Nat.lt_trans hj p.isLt⟩ p
      ((of_decide_eq_true hfound).trans h.symm)
    exact absurd (congrArg Fin.val heq) (Nat.ne_of_lt hj)

/-- A module gives edges for what it declares on both sides, where the other end is there. -/
theorem mem_edgesAt (hdistinct : Distinct modules) {p : Fin modules.size}
    {e : Edge modules.size} :
    e ∈ edgesAt modules p ↔
      e.later = p ∧ (moduleAt modules e.earlier).id ∈ (moduleAt modules p).metadata.after ∨
        e.earlier = p ∧ (moduleAt modules e.later).id ∈ (moduleAt modules p).metadata.before := by
  obtain ⟨earlier, later⟩ := e
  have hedges : edgesAt modules p =
      ((moduleAt modules p).metadata.after.toList.filterMap (rank? modules)).map (⟨·, p⟩) ++
        ((moduleAt modules p).metadata.before.toList.filterMap (rank? modules)).map (⟨p, ·⟩) := rfl
  simp only [hedges, List.mem_append, List.mem_map, List.mem_filterMap,
    rank?_eq_some_iff hdistinct, Edge.mk.injEq, NameSet.mem_toList]
  grind

/-- A row of the table has exactly the ranks that one of the two modules declares to come before. -/
theorem direct_precedence_iff (hdistinct : Distinct modules) {q p : Fin modules.size} :
    Direct (precedence modules) q p ↔
      (moduleAt modules q).id ∈ (moduleAt modules p).metadata.after ∨
        (moduleAt modules p).id ∈ (moduleAt modules q).metadata.before := by
  rw [Direct, mem_precedence, edges, List.mem_flatMap]
  simp only [mem_edgesAt hdistinct, List.mem_finRange, true_and]
  constructor
  · rintro ⟨r, ⟨rfl, h⟩ | ⟨rfl, h⟩⟩
    · exact .inl h
    · exact .inr h
  · rintro (h | h)
    · exact ⟨p, .inl ⟨rfl, h⟩⟩
    · exact ⟨q, .inr ⟨rfl, h⟩⟩

/-! ## Constraints and the table -/

theorem exists_position {a : ModuleId} (h : a ∈ modules.toList.map (·.id)) :
    ∃ p : Fin modules.size, (moduleAt modules p).id = a := by
  obtain ⟨x, hx, rfl⟩ := List.mem_map.1 h
  obtain ⟨i, hi, rfl⟩ := Array.mem_iff_getElem.1 (Array.mem_toList_iff.1 hx)
  exact ⟨⟨i, hi⟩, rfl⟩

/-- Constraints between modules are direct edges between their ranks. -/
theorem mustPrecede_iff_direct (hdistinct : Distinct modules) {q p : Fin modules.size} :
    MustPrecede modules.toList (moduleAt modules q).id (moduleAt modules p).id ↔
      Direct (precedence modules) q p := by
  rw [direct_precedence_iff hdistinct]
  constructor
  · rintro ⟨x, hx, y, hy, hxid, hyid, h⟩
    obtain ⟨i, hi, rfl⟩ := Array.mem_iff_getElem.1 (Array.mem_toList_iff.1 hx)
    obtain ⟨j, hj, rfl⟩ := Array.mem_iff_getElem.1 (Array.mem_toList_iff.1 hy)
    cases hdistinct ⟨i, hi⟩ q hxid
    cases hdistinct ⟨j, hj⟩ p hyid
    exact h
  · intro h
    exact ⟨_, moduleAt_mem q, _, moduleAt_mem p, rfl, rfl, h⟩

/-- A chain in the table is a chain of constraints between the modules at its ends. -/
theorem leads_precedence_iff (hdistinct : Distinct modules) {q p : Fin modules.size} :
    Leads (precedence modules) q p ↔
      Chain modules.toList (moduleAt modules q).id (moduleAt modules p).id := by
  constructor
  · intro h
    induction h with
    | single h => exact .single ((mustPrecede_iff_direct hdistinct).2 h)
    | tail _ h ih => exact .tail ih ((mustPrecede_iff_direct hdistinct).2 h)
  · intro h
    generalize hb : (moduleAt modules p).id = b at h
    induction h generalizing p with
    | single h =>
      rw [← hb] at h
      exact .single ((mustPrecede_iff_direct hdistinct).1 h)
    | tail _ h ih =>
      obtain ⟨r, rfl⟩ := exists_position h.mem_left
      rw [← hb] at h
      exact .tail (ih rfl) ((mustPrecede_iff_direct hdistinct).1 h)

end Table

end Activation.Order
