-- SUMMARY: What a map answers, by the entries that it was made of, and how many entries it has.
import Activation.NameMap
import Mathlib.Data.Finset.Card
import Mathlib.Data.List.Forall2
import Mathlib.Data.List.Sort

/-!
# Look-up in maps

Of entries with the same name the last one counts, so what a map made of a list answers for a
name is the last of the values that the list gives for it. Changing every value changes every
answer, and dropping values drops the answers that are these values. A map is determined by what
it answers, and it grows by one with a name that had no value.
-/

namespace Activation.NameMap

variable {α β : Type} {m : NameMap α} {name : String}

/-- The values that entries give for a name, in order. -/
def valuesFor (name : String) (entries : List (String × α)) : List α :=
  (entries.filter fun e => e.1 = name).map (·.2)

@[simp] theorem mem_valuesFor {entries : List (String × α)} {value : α} :
    value ∈ valuesFor name entries ↔ (name, value) ∈ entries := by
  simp [valuesFor]

/-- In a list without repeated names, an entry has the only value of its name. -/
theorem getLast?_valuesFor {entries : List (String × α)} {value : α}
    (nodup : (entries.map (·.1)).Nodup) (h : (name, value) ∈ entries) :
    (valuesFor name entries).getLast? = some value := by
  cases hlast : (valuesFor name entries).getLast? with
  | none =>
    have hmem : value ∈ valuesFor name entries := mem_valuesFor.2 h
    simp [List.getLast?_eq_none_iff.1 hlast] at hmem
  | some last =>
    have hmem := mem_valuesFor.1 (List.mem_of_getLast? hlast)
    exact congrArg some (Prod.mk.inj (List.inj_on_of_nodup_map nodup hmem h rfl)).2

theorem valuesFor_append (entries entries' : List (String × α)) :
    valuesFor name (entries ++ entries') = valuesFor name entries ++ valuesFor name entries' := by
  simp [valuesFor]

theorem valuesFor_eq_nil_iff {entries : List (String × α)} :
    valuesFor name entries = [] ↔ ∀ value, (name, value) ∉ entries := by
  simp [List.eq_nil_iff_forall_not_mem]

theorem valuesFor_cons (e : String × α) (rest : List (String × α)) :
    valuesFor name (e :: rest) =
      if e.1 = name then e.2 :: valuesFor name rest else valuesFor name rest := by
  by_cases h : e.1 = name
  · simp [valuesFor, h]
  · simp [valuesFor, h]

/-- Of entries with the same name that are inserted in turn, the last one is found. -/
theorem find?_foldl_insert (entries : List (String × α)) (m : NameMap α) :
    (entries.foldl (fun m e => m.insert e.1 e.2) m).find? name =
      (valuesFor name entries).getLast?.or (m.find? name) := by
  induction entries generalizing m with
  | nil => rfl
  | cons e rest ih =>
    rw [List.foldl_cons, ih, find?_insert, valuesFor_cons]
    split
    · rw [List.getLast?_cons]
      cases (valuesFor name rest).getLast? with
      | none => rfl
      | some value => rfl
    · rfl

/-- Of entries with the same name the last one counts. -/
theorem find?_ofList (entries : List (String × α)) :
    (ofList entries).find? name = (valuesFor name entries).getLast? := by
  rw [ofList, find?_foldl_insert, find?_empty, Option.or_none]

/-- Related lists have related last items, if any. -/
theorem rel_getLast? {R : α → β → Prop} {as : List α} {bs : List β} (h : List.Forall₂ R as bs) :
    Option.Rel R as.getLast? bs.getLast? := by
  induction h with
  | nil => exact .none
  | @cons a b as bs related _ ih =>
    rw [List.getLast?_cons, List.getLast?_cons]
    generalize as.getLast? = last, bs.getLast? = last' at ih
    cases ih with
    | none => exact .some related
    | some later => exact .some later

/-- Lists that give related values for the same names make maps that answer by related values. -/
theorem rel_find?_ofList {R : α → β → Prop} {entries : List (String × α)}
    {entries' : List (String × β)}
    (h : List.Forall₂ (fun e e' => e.1 = e'.1 ∧ R e.2 e'.2) entries entries') (name : String) :
    Option.Rel R ((ofList entries).find? name) ((ofList entries').find? name) := by
  rw [find?_ofList, find?_ofList]
  apply rel_getLast?
  induction h with
  | nil => exact .nil
  | cons related _ ih =>
    rw [valuesFor_cons, valuesFor_cons, ← related.1]
    split
    · exact .cons related.2 ih
    · exact ih

theorem find?_map (f : α → β) : (m.map f).find? name = (m.find? name).map f := by
  rw [find?, find?, map, List.find?_map, Option.map_map, Option.map_map]
  rfl

theorem find?_filter (p : α → Bool) : (m.filter p).find? name = (m.find? name).filter p := by
  apply Option.ext
  intro value
  rw [← mem_entries_iff, Option.filter_eq_some_iff, ← mem_entries_iff]
  exact List.mem_filter

/-! ## Maps that answer alike -/

instance : Std.Irrefl fun a b : String × α => a.1 < b.1 where
  irrefl a := String.lt_irrefl a.1

instance : Std.Antisymm fun a b : String × α => a.1 < b.1 where
  antisymm _ _ h h' := absurd h' (String.lt_asymm h)

/-- Maps that answer every look-up alike are equal. -/
theorem ext_find? {m n : NameMap α} (h : ∀ name, m.find? name = n.find? name) : m = n := by
  have hentries : m.entries = n.entries := by
    apply m.ascending.eq_of_mem_iff n.ascending
    intro e
    rw [← Prod.mk.eta (p := e), mem_entries_iff, mem_entries_iff, h]
  obtain ⟨entries, ascending⟩ := m
  subst hentries
  rfl

/-! ## Size -/

theorem length_placeEntry {value : α} {l : List (String × α)} (h : ∀ e ∈ l, e.1 ≠ name) :
    (placeEntry name value l).length = l.length + 1 := by
  induction l with
  | nil => rfl
  | cons other rest ih =>
    have hrest := ih fun e he => h e (List.mem_cons_of_mem _ he)
    have hne : name ≠ other.1 := (h other List.mem_cons_self).symm
    rw [placeEntry, if_neg hne]
    split
    · rfl
    · rw [List.length_cons, hrest, List.length_cons]

/-- A map grows by one with a name that had no value. -/
theorem size_insert {value : α} (h : m.find? name = none) :
    (m.insert name value).size = m.size + 1 := by
  refine length_placeEntry fun e he heq => ?_
  rw [find?, Option.map_eq_none_iff, List.find?_eq_none] at h
  exact h e he (decide_eq_true heq)

/-- The size of a map is the number of names that have a value. -/
theorem size_eq_card {names : Finset String} (h : ∀ name, name ∈ names ↔ m.contains name = true) :
    m.size = names.card := by
  have nodup : (m.entries.map (·.1)).Nodup := by
    refine List.pairwise_map.2 (m.ascending.imp fun hlt heq => ?_)
    exact String.lt_irrefl _ (heq ▸ hlt)
  have hnames : names = (m.entries.map (·.1)).toFinset := by
    ext name
    simp [h, contains, Option.isSome_iff_exists, ← mem_entries_iff]
  rw [hnames, List.toFinset_card_of_nodup nodup, List.length_map, size]

/-- A name that is there is replaced, so the list does not grow. -/
theorem length_placeEntry_of_mem {old value : α} {l : List (String × α)}
    (ascending : l.Pairwise fun a b => a.1 < b.1) (h : (name, old) ∈ l) :
    (placeEntry name value l).length = l.length := by
  induction l with
  | nil => cases h
  | cons other rest ih =>
    obtain ⟨first, later⟩ := List.pairwise_cons.1 ascending
    rw [placeEntry]
    cases List.mem_cons.1 h with
    | inl heq =>
      subst heq
      rw [if_neg (String.lt_irrefl name), if_pos rfl]
      rfl
    | inr hmem =>
      have hlt : other.1 < name := first (name, old) hmem
      have hne : name ≠ other.1 := fun heq => String.lt_irrefl name (heq ▸ hlt)
      rw [if_neg (String.lt_asymm hlt), if_neg hne, List.length_cons, ih later hmem,
        List.length_cons]

/-- A map keeps its size when a value is replaced. -/
theorem size_insert_of_find? {old value : α} (h : m.find? name = some old) :
    (m.insert name value).size = m.size :=
  length_placeEntry_of_mem m.ascending (mem_entries_iff.2 h)

end Activation.NameMap
