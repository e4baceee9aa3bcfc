-- SUMMARY: Which exclusions properties list, and in which order.
import Activation.Proofs.NameMap
import Activation.Proofs.StableSort
import Activation.Proofs.Text.Integer
import Activation.Settings.Layers
import Mathlib.Data.List.Sort

/-!
# Exclusions listed by properties

Two kinds of properties list exclusions: the plain one, and numbered ones with a number in
brackets behind the name. Their values are listed as they are, the plain one's first and the
others by number; where two names write the same number, by name. Other properties have no
effect.
-/

namespace Activation.Settings

/-- The name of a numbered exclusion property: a number of 64 bits stands in brackets behind the
    name of the plain one. -/
structure Numbered (name : String) (n : Nat) : Prop where
  fits : n < 18446744073709551616
  written : ∃ number, name.toList = excludeProperty.toList ++ '[' :: (number ++ [']']) ∧
    Text.Natural number n

/-- Some property lists exclusions. -/
def Excludes (given : String → Option String) : Prop :=
  ∃ name value, given name = some value ∧ (name = excludeProperty ∨ ∃ n, Numbered name n)

/-- Of two numbered properties, each with its number, the first has the lower number, or the same
    number and the smaller name. -/
def Before (a b : Nat × String × String) : Prop := a.1 < b.1 ∨ a.1 = b.1 ∧ a.2.1 < b.2.1

/-- Exclusions are listed as properties give them: the plain property's first, then those of the
    numbered ones by number, and by name where the number is the same. -/
structure Lists (given : String → Option String) (exclude : List String) : Prop where
  listed : ∃ numbered : List (Nat × String × String),
    (∀ n name value, (n, name, value) ∈ numbered ↔ Numbered name n ∧ given name = some value) ∧
    numbered.Pairwise Before ∧
    exclude = (given excludeProperty).toList ++ numbered.map (·.2.2)

instance : Std.Irrefl Before where
  irrefl a h := by
    cases h with
    | inl hlt => exact Nat.lt_irrefl a.1 hlt
    | inr hlt => exact String.lt_irrefl a.2.1 hlt.2

instance : Std.Antisymm Before where
  antisymm a b h h' := by
    cases h with
    | inl hlt =>
      cases h' with
      | inl hlt' => exact absurd hlt' (Nat.lt_asymm hlt)
      | inr hlt' => exact absurd hlt'.1 (Nat.ne_of_gt hlt)
    | inr hlt =>
      cases h' with
      | inl hlt' => exact absurd hlt.1 (Nat.ne_of_gt hlt')
      | inr hlt' => exact absurd hlt'.2 (String.lt_asymm hlt.2)

/-- Properties list exclusions in one way only. -/
theorem Lists.eq {given : String → Option String} {exclude exclude' : List String}
    (h : Lists given exclude) (h' : Lists given exclude') : exclude = exclude' := by
  obtain ⟨numbered, hmem, hsorted, rfl⟩ := h
  obtain ⟨numbered', hmem', hsorted', rfl⟩ := h'
  have heq : numbered = numbered' := by
    apply hsorted.eq_of_mem_iff hsorted'
    intro entry
    obtain ⟨n, name, value⟩ := entry
    rw [hmem, hmem']
  rw [heq]

/-- What is listed is the value of a property that lists exclusions. -/
theorem Lists.exists_property {given : String → Option String} {exclude : List String}
    {value : String} (h : Lists given exclude) (hvalue : value ∈ exclude) :
    ∃ name, given name = some value ∧ (name = excludeProperty ∨ ∃ n, Numbered name n) := by
  obtain ⟨numbered, hmem, -, rfl⟩ := h
  cases List.mem_append.1 hvalue with
  | inl hplain => exact ⟨excludeProperty, Option.mem_toList.1 hplain, .inl rfl⟩
  | inr hnumbered =>
    obtain ⟨⟨n, name, value⟩, hentry, rfl⟩ := List.mem_map.1 hnumbered
    obtain ⟨hname, hgiven⟩ := (hmem n name value).1 hentry
    exact ⟨name, hgiven, .inr ⟨n, hname⟩⟩

variable {properties : NameMap String} {name : String} {n : Nat}

/-- A name is read as a numbered exclusion exactly if it is spelled as one. -/
theorem exclusionIndex?_eq_some_iff : exclusionIndex? name = some n ↔ Numbered name n := by
  unfold exclusionIndex?
  constructor
  · intro h
    split at h
    · rename_i rest hstart
      split at h
      · rename_i number hreverse
        obtain ⟨hnumber, hfits⟩ := Option.filter_eq_some_iff.1 h
        have hrest : rest = number.reverse ++ [']'] := by
          simpa using congrArg List.reverse hreverse
        refine ⟨of_decide_eq_true hfits, number.reverse, ?_, Text.natural?_eq_some_iff.1 hnumber⟩
        rw [← hrest]
        exact (List.isPrefixOf?_eq_some_iff_append_eq.1 hstart).symm
      · cases h
    · cases h
  · intro h
    obtain ⟨hfits, number, hname, hnumber⟩ := h
    have hstart : excludeProperty.toList.isPrefixOf? name.toList =
        some ('[' :: (number ++ [']'])) :=
      List.isPrefixOf?_eq_some_iff_append_eq.2 hname.symm
    have hreverse : (number ++ [']']).reverse = ']' :: number.reverse := by simp
    simp only [hstart, hreverse, List.reverse_reverse]
    exact Option.filter_eq_some_iff.2 ⟨Text.natural?_eq_some_iff.2 hnumber, decide_eq_true hfits⟩

/-! ## The numbered properties -/

/-- The numbered exclusion properties by name, each with its number. -/
def numberedEntries (properties : NameMap String) : List (Nat × String × String) :=
  properties.entries.filterMap fun e => (exclusionIndex? e.1).map fun n => (n, e)

/-- All numbered exclusions are collected, each with the value that counts for its name. -/
theorem mem_numberedEntries {value : String} :
    (n, name, value) ∈ numberedEntries properties ↔
      Numbered name n ∧ properties.find? name = some value := by
  rw [← exclusionIndex?_eq_some_iff, ← NameMap.mem_entries_iff, numberedEntries, List.mem_filterMap]
  constructor
  · intro h
    obtain ⟨e, he, heq⟩ := h
    obtain ⟨n', hn', heq⟩ := Option.map_eq_some_iff.1 heq
    cases heq
    exact ⟨hn', he⟩
  · intro h
    exact ⟨(name, value), h.2, by simp [h.1]⟩

/-- Entries are collected in the order of their full names, which decides between equal numbers. -/
theorem pairwise_numberedEntries (properties : NameMap String) :
    (numberedEntries properties).Pairwise fun a b => a.2.1 < b.2.1 := by
  refine properties.ascending.filterMap _ fun e e' hlt a ha b hb => ?_
  obtain ⟨n, -, rfl⟩ := Option.map_eq_some_iff.1 ha
  obtain ⟨n', -, rfl⟩ := Option.map_eq_some_iff.1 hb
  exact hlt

theorem nodup_numberedEntries (properties : NameMap String) :
    (numberedEntries properties).Nodup := by
  refine (pairwise_numberedEntries properties).imp fun {a b} hlt heq => ?_
  exact String.lt_irrefl b.2.1 (heq ▸ hlt)

/-- The numbered properties by number, and by name where the number is the same. -/
theorem pairwise_sorted_numberedEntries (properties : NameMap String) :
    ((numberedEntries properties).mergeSort fun a b => a.1 ≤ b.1).Pairwise Before := by
  have trans : ∀ a b c : Nat × String × String,
      decide (a.1 ≤ b.1) → decide (b.1 ≤ c.1) → decide (a.1 ≤ c.1) := by
    simp only [decide_eq_true_eq]
    exact fun a b c => Nat.le_trans
  have total : ∀ a b : Nat × String × String,
      (decide (a.1 ≤ b.1) || decide (b.1 ≤ a.1)) = true := by
    simp only [Bool.or_eq_true, decide_eq_true_eq]
    exact fun a b => Nat.le_total a.1 b.1
  have hsorted := pairwise_mergeSort_of_pairwise trans total (nodup_numberedEntries properties)
    (pairwise_numberedEntries properties)
  refine hsorted.imp fun {a b} hab => ?_
  simp only [decide_eq_true_eq] at hab
  cases Nat.lt_or_eq_of_le hab.1 with
  | inl hlt => exact .inl hlt
  | inr heq => exact .inr ⟨heq, hab.2 (Nat.le_of_eq heq.symm)⟩

/-! ## The list -/

/-- The exclusions are those of the plain property, then the numbered ones by number. -/
theorem excludeOfProperties?_eq :
    excludeOfProperties? properties =
      if properties.find? excludeProperty = none ∧ numberedEntries properties = [] then none
      else some ((properties.find? excludeProperty).toList ++
        ((numberedEntries properties).mergeSort fun a b => a.1 ≤ b.1).map (·.2.2)) := by
  have hnumbered : (properties.entries.filterMap fun e =>
      (exclusionIndex? e.1).map fun n => (n, e.2)) =
        (numberedEntries properties).map fun a => (a.1, a.2.2) := by
    rw [numberedEntries, List.map_filterMap]
    congr 1
    funext e
    cases exclusionIndex? e.1 <;> rfl
  have hsorted : ((numberedEntries properties).map fun a => (a.1, a.2.2)).mergeSort
      (fun a b => a.1 ≤ b.1) =
        ((numberedEntries properties).mergeSort fun a b => a.1 ≤ b.1).map fun a =>
          (a.1, a.2.2) := by
    symm
    apply List.map_mergeSort
    intro a _ b _
    rfl
  simp only [excludeOfProperties?, hnumbered, hsorted, List.map_map, Option.toList_eq_nil_iff,
    List.map_eq_nil_iff]
  rfl

theorem excludes_iff : Excludes properties.find? ↔
    ¬ (properties.find? excludeProperty = none ∧ numberedEntries properties = []) := by
  constructor
  · intro h hnone
    obtain ⟨name, value, hvalue, rfl | ⟨n, hn⟩⟩ := h
    · cases hnone.1.symm.trans hvalue
    · have hmem := mem_numberedEntries.2 ⟨hn, hvalue⟩
      rw [hnone.2] at hmem
      cases hmem
  · intro h
    cases hplain : properties.find? excludeProperty with
    | some value => exact ⟨excludeProperty, value, hplain, .inl rfl⟩
    | none =>
      obtain ⟨⟨n, name, value⟩, hmem⟩ := List.exists_mem_of_ne_nil _ fun hnil => h ⟨hplain, hnil⟩
      obtain ⟨hn, hvalue⟩ := mem_numberedEntries.1 hmem
      exact ⟨name, value, hvalue, .inr ⟨n, hn⟩⟩

theorem excludeOfProperties?_eq_none_iff :
    excludeOfProperties? properties = none ↔ ¬ Excludes properties.find? := by
  rw [excludeOfProperties?_eq, excludes_iff, not_not]
  split
  · rename_i h
    exact iff_of_true rfl h
  · rename_i h
    exact iff_of_false (Option.some_ne_none _) h

/-- Properties that list exclusions list them by kind, number and name. -/
theorem lists_of_excludeOfProperties? {exclude : List String}
    (h : excludeOfProperties? properties = some exclude) :
    Excludes properties.find? ∧ Lists properties.find? exclude := by
  have hexcludes : Excludes properties.find? := by
    by_contra hnot
    cases h.symm.trans (excludeOfProperties?_eq_none_iff.2 hnot)
  rw [excludeOfProperties?_eq, if_neg (excludes_iff.1 hexcludes), Option.some.injEq] at h
  refine ⟨hexcludes, (numberedEntries properties).mergeSort fun a b => a.1 ≤ b.1, ?_,
    pairwise_sorted_numberedEntries properties, h.symm⟩
  intro n name value
  rw [List.mem_mergeSort, mem_numberedEntries]

end Activation.Settings
