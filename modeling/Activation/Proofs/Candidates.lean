-- SUMMARY: Distinct candidates are the listed ones, each once.
import Activation.Candidates

/-!
# Distinct candidates

`distinct` drops repeats and nothing else: it keeps the members of a list and lists each
of them once.
-/

namespace Activation.Candidates

variable {seen ids : List ModuleId} {a : ModuleId}

/-- What was seen before is dropped, and of the rest nothing is lost. -/
theorem mem_distinctFrom : a ∈ distinctFrom seen ids ↔ a ∈ ids ∧ a ∉ seen := by
  induction ids generalizing seen with
  | nil => simp [distinctFrom]
  | cons id rest ih =>
    unfold distinctFrom
    split
    · rename_i hseen
      rw [ih, List.mem_cons]
      constructor
      · rintro ⟨ha, hnew⟩
        exact ⟨.inr ha, hnew⟩
      · rintro ⟨rfl | ha, hnew⟩
        · exact absurd hseen hnew
        · exact ⟨ha, hnew⟩
    · rename_i hnew
      rw [List.mem_cons, ih, List.mem_cons, List.mem_cons, not_or]
      constructor
      · rintro (rfl | ⟨ha, -, hnew'⟩)
        · exact ⟨.inl rfl, hnew⟩
        · exact ⟨.inr ha, hnew'⟩
      · rintro ⟨rfl | ha, hnew'⟩
        · exact .inl rfl
        · by_cases e : a = id
          · exact .inl e
          · exact .inr ⟨ha, e, hnew'⟩

/-- An id that is kept counts as seen from then on, so it cannot be kept again. -/
theorem nodup_distinctFrom (seen ids : List ModuleId) : (distinctFrom seen ids).Nodup := by
  induction ids generalizing seen with
  | nil => exact List.nodup_nil
  | cons id rest ih =>
    unfold distinctFrom
    split
    · exact ih seen
    · refine List.nodup_cons.2 ⟨?_, ih (id :: seen)⟩
      intro h
      exact (mem_distinctFrom.1 h).2 List.mem_cons_self

@[simp] theorem mem_distinct : a ∈ distinct ids ↔ a ∈ ids := by
  unfold distinct
  simp [mem_distinctFrom]

theorem nodup_distinct (ids : List ModuleId) : (distinct ids).Nodup :=
  nodup_distinctFrom [] ids

end Activation.Candidates
