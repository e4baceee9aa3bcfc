-- SUMMARY: A property is read by dividing it at its first equals sign.
import Activation.CommandLine.Grammar
import Mathlib.Data.List.TakeWhile

/-!
# Properties of the command line

A property divides at its first equals sign. What stands before it is the key, from which
blanks are trimmed and which may not be empty; everything behind it, further equals signs
included, is the value.
-/

namespace Activation.CommandLine

variable {cs left rest : List Char}

theorem cutAtEquals_of_not_mem (h : '=' ∉ cs) : cutAtEquals cs = (cs, none) := by
  have hdrop : cs.dropWhile (· ≠ '=') = [] := by
    rw [List.dropWhile_eq_nil_iff]
    intro c hc
    exact decide_eq_true fun e => h (e ▸ hc)
  rw [cutAtEquals, hdrop]

theorem cutAtEquals_append (h : '=' ∉ left) :
    cutAtEquals (left ++ '=' :: rest) = (left, some rest) := by
  have hleft : ∀ c ∈ left, decide (c ≠ '=') = true := fun c hc =>
    decide_eq_true fun e => h (e ▸ hc)
  have hdrop : (left ++ '=' :: rest).dropWhile (· ≠ '=') = '=' :: rest := by
    rw [List.dropWhile_append_of_pos hleft]
    rfl
  have htake : (left ++ '=' :: rest).takeWhile (· ≠ '=') = left := by
    rw [List.takeWhile_append_of_pos hleft]
    simp
  rw [cutAtEquals, hdrop, htake]

/-- A text is cut at its first equals sign. -/
theorem cutAtEquals_eq_some_iff :
    cutAtEquals cs = (left, some rest) ↔ cs = left ++ '=' :: rest ∧ '=' ∉ left := by
  constructor
  · intro h
    by_cases hmem : '=' ∈ cs
    · obtain ⟨before, after, rfl, hbefore⟩ := List.eq_append_cons_of_mem hmem
      rw [cutAtEquals_append hbefore] at h
      cases h
      exact ⟨rfl, hbefore⟩
    · rw [cutAtEquals_of_not_mem hmem] at h
      cases h
  · intro h
    rw [h.1]
    exact cutAtEquals_append h.2

/-- A text is a key and a value with an equals sign between, the first one of the text. Blanks
    around the key do not count, and it is not empty. The value is left as it stands. -/
structure Divides (raw : String) (property : String × String) : Prop where
  nonempty : property.1 ≠ ""
  atEquals : ∃ left, raw.toList = left ++ '=' :: property.2.toList ∧ '=' ∉ left ∧
    property.1 = Text.trim (String.ofList left)

/-- A property is accepted exactly as it divides at its first equals sign. -/
theorem property_eq_ok_iff {raw : String} {p : String × String} :
    property raw = .ok p ↔ Divides raw p := by
  obtain ⟨key, value⟩ := p
  constructor
  · intro h
    unfold property at h
    split at h
    · cases h
    · rename_i left rest hcut
      obtain ⟨hraw, hleft⟩ := cutAtEquals_eq_some_iff.1 hcut
      dsimp only at h
      split at h
      · cases h
      · rename_i hkey
        cases h
        exact ⟨hkey, left, by simpa using hraw, hleft, rfl⟩
  · intro h
    obtain ⟨hkey, left, hraw, hleft, heq⟩ := h
    dsimp only at hkey heq
    subst heq
    unfold property
    rw [cutAtEquals_eq_some_iff.2 ⟨hraw, hleft⟩]
    dsimp only
    rw [if_neg hkey, String.ofList_toList]

end Activation.CommandLine
