-- SUMMARY: Finite sets of names, kept as strictly ascending lists.
import Activation.Ascending

/-!
# Sets of names

A set of names is stored as the strictly ascending list of its members, by code
point. The list is determined by the members, so two sets with the same members
are equal (`NameSet.ext_mem`), and listing a set is deterministic.
-/

namespace Activation

/-- The name of a module. Names are compared as they stand, without normalization. -/
abbrev ModuleId := String

/-- A finite set of names. -/
structure NameSet where
  /-- The members, strictly ascending. -/
  toList : List String
  ascending : toList.Pairwise (· < ·)
  deriving DecidableEq

namespace NameSet

/-! ## Construction -/

def empty : NameSet := ⟨[], .nil⟩

instance : EmptyCollection NameSet := ⟨empty⟩
instance : Inhabited NameSet := ⟨∅⟩

/-- A name that neither precedes nor equals another follows it. -/
theorem lt_of_not_lt_of_ne {a b : String} (h : ¬ a < b) (ne : a ≠ b) : b < a := by
  have le : b ≤ a := h
  exact Decidable.byContradiction fun hn => ne (String.le_antisymm hn le)

def insert (s : NameSet) (name : String) : NameSet :=
  ⟨Ascending.place name s.toList,
    Ascending.pairwise_place String.lt_trans lt_of_not_lt_of_ne s.ascending⟩

def insertAll (s : NameSet) (names : List String) : NameSet :=
  names.foldr (fun name t => t.insert name) s

def ofList (names : List String) : NameSet :=
  insertAll ∅ names

def union (s t : NameSet) : NameSet :=
  t.insertAll s.toList

instance : Union NameSet := ⟨union⟩

def filter (s : NameSet) (p : String → Bool) : NameSet :=
  ⟨s.toList.filter p, s.ascending.filter p⟩

/-! ## Observation -/

instance : Membership String NameSet := ⟨fun s name => name ∈ s.toList⟩

instance (s : NameSet) (name : String) : Decidable (name ∈ s) :=
  inferInstanceAs (Decidable (name ∈ s.toList))

def contains (s : NameSet) (name : String) : Bool :=
  decide (name ∈ s)

def isEmpty (s : NameSet) : Bool :=
  s.toList.isEmpty

def size (s : NameSet) : Nat :=
  s.toList.length

def isSubset (s t : NameSet) : Bool :=
  s.toList.all t.contains

/-! ## Membership -/

@[simp] theorem mem_toList {s : NameSet} {name : String} : name ∈ s.toList ↔ name ∈ s := Iff.rfl

@[simp] theorem not_mem_empty (name : String) : ¬ name ∈ (∅ : NameSet) :=
  List.not_mem_nil

@[simp] theorem contains_iff {s : NameSet} {name : String} : s.contains name = true ↔ name ∈ s := by
  simp [contains]

@[simp] theorem mem_insert {s : NameSet} {name x : String} :
    x ∈ s.insert name ↔ x = name ∨ x ∈ s :=
  Ascending.mem_place

@[simp] theorem mem_insertAll {s : NameSet} {names : List String} {x : String} :
    x ∈ s.insertAll names ↔ x ∈ names ∨ x ∈ s := by
  induction names with
  | nil => simp [insertAll]
  | cons name rest ih =>
    have step : s.insertAll (name :: rest) = (s.insertAll rest).insert name := rfl
    simp only [step, mem_insert, ih, List.mem_cons, or_assoc]

@[simp] theorem mem_ofList {names : List String} {x : String} : x ∈ ofList names ↔ x ∈ names := by
  simp [ofList]

@[simp] theorem mem_union {s t : NameSet} {x : String} : x ∈ s ∪ t ↔ x ∈ s ∨ x ∈ t :=
  mem_insertAll

@[simp] theorem mem_filter {s : NameSet} {p : String → Bool} {x : String} :
    x ∈ s.filter p ↔ x ∈ s ∧ p x = true :=
  List.mem_filter

@[simp] theorem isSubset_iff {s t : NameSet} : s.isSubset t = true ↔ ∀ x ∈ s, x ∈ t := by
  simp [isSubset]

theorem nodup_toList (s : NameSet) : s.toList.Nodup := by
  refine List.Pairwise.imp (fun {a b} lt => ?_) s.ascending
  intro e
  exact String.lt_irrefl b (e ▸ lt)

/-- Sets with the same members are equal. -/
theorem ext_mem {s t : NameSet} (h : ∀ x, x ∈ s ↔ x ∈ t) : s = t := by
  obtain ⟨l, hl⟩ := s
  obtain ⟨m, hm⟩ := t
  have e : l = m := Ascending.eq_of_mem_iff String.lt_asymm hl hm h
  subst e
  rfl

@[simp] theorem ofList_toList (s : NameSet) : ofList s.toList = s :=
  ext_mem fun x => by rw [mem_ofList, mem_toList]

end NameSet

end Activation
