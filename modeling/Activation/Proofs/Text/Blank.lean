-- SUMMARY: What trimming leaves, and which texts it leaves as they are.
import Activation.Text.Blank
import Mathlib.Data.List.DropRight

/-!
# Trimmed texts

Trimming leaves a text at whose ends no blank stands, and texts of which this is so already it
leaves as they are. So trimming once more changes nothing. What is left is the one text at whose
ends no blank stands and that the text is with blanks around it.
-/

namespace Activation.Text

variable {cs ds es : List Char}

/-- No blank stands at either end of a text. -/
structure Unpadded (cs : List Char) : Prop where
  first : ∀ c ∈ cs.head?, isBlank c = false
  last : ∀ c ∈ cs.getLast?, isBlank c = false

/-- Trimming keeps the name: it is not empty, and no blanks surround it. -/
def Plain (name : String) : Prop := name ≠ "" ∧ trim name = name

/-- A text is another one with blanks around it. The other one may be empty. -/
def Pads (cs ds : List Char) : Prop :=
  ∃ before after, cs = before ++ (ds ++ after) ∧ (∀ c ∈ before, isBlank c = true) ∧
    ∀ c ∈ after, isBlank c = true

theorem trimChars_eq_rdropWhile (cs : List Char) :
    trimChars cs = (cs.dropWhile isBlank).rdropWhile isBlank := rfl

theorem dropWhile_isBlank_eq_self_iff :
    cs.dropWhile isBlank = cs ↔ ∀ c ∈ cs.head?, isBlank c = false := by
  cases cs with
  | nil => simp
  | cons c cs => simp

theorem rdropWhile_isBlank_eq_self_iff :
    cs.rdropWhile isBlank = cs ↔ ∀ c ∈ cs.getLast?, isBlank c = false := by
  rw [List.rdropWhile, List.reverse_eq_iff, dropWhile_isBlank_eq_self_iff, List.head?_reverse]

/-- Trimming leaves exactly the texts alone that neither begin nor end with a blank. -/
theorem trimChars_eq_self_iff : trimChars cs = cs ↔ Unpadded cs := by
  rw [trimChars_eq_rdropWhile]
  constructor
  · intro h
    have hstart : (cs.dropWhile isBlank).length = cs.length := by
      refine Nat.le_antisymm (List.dropWhile_suffix isBlank).length_le ?_
      have hend := (List.rdropWhile_prefix isBlank (cs.dropWhile isBlank)).length_le
      rwa [h] at hend
    have hdrop := (List.dropWhile_suffix isBlank).eq_of_length hstart
    rw [hdrop] at h
    exact ⟨dropWhile_isBlank_eq_self_iff.1 hdrop, rdropWhile_isBlank_eq_self_iff.1 h⟩
  · intro h
    rw [dropWhile_isBlank_eq_self_iff.2 h.first, rdropWhile_isBlank_eq_self_iff.2 h.last]

/-- What is left after trimming has no blanks at its ends. -/
theorem unpadded_trimChars (cs : List Char) : Unpadded (trimChars cs) := by
  rw [trimChars_eq_rdropWhile]
  have hfirst := dropWhile_isBlank_eq_self_iff.1 (List.dropWhile_idempotent isBlank cs)
  refine ⟨fun c hc => hfirst c ?_,
    rdropWhile_isBlank_eq_self_iff.1 (List.rdropWhile_idempotent isBlank _)⟩
  -- What is dropped at the end does not show at the start.
  obtain ⟨dropped, hdropped⟩ := List.rdropWhile_prefix isBlank (cs.dropWhile isBlank)
  rw [← hdropped]
  exact List.mem_head?_append_of_mem_head? hc

theorem trim_eq_self_iff {s : String} : trim s = s ↔ Unpadded s.toList := by
  rw [← trimChars_eq_self_iff, trim, ← String.toList_inj, String.toList_ofList]

theorem plain_iff {name : String} : Plain name ↔ name ≠ "" ∧ Unpadded name.toList := by
  rw [Plain, trim_eq_self_iff]

@[simp] theorem trim_trim (s : String) : trim (trim s) = trim s := by
  rw [trim_eq_self_iff, trim, String.toList_ofList]
  exact unpadded_trimChars s.toList

/-! ## Blanks around a text -/

theorem Pads.refl (cs : List Char) : Pads cs cs := ⟨[], [], by simp, by simp, by simp⟩

theorem Pads.trans (h : Pads cs ds) (h' : Pads ds es) : Pads cs es := by
  obtain ⟨before, after, rfl, hbefore, hafter⟩ := h
  obtain ⟨before', after', rfl, hbefore', hafter'⟩ := h'
  refine ⟨before ++ before', after' ++ after, by simp only [List.append_assoc], ?_, ?_⟩
  · exact fun c hc => (List.mem_append.1 hc).elim (hbefore c) (hbefore' c)
  · exact fun c hc => (List.mem_append.1 hc).elim (hafter' c) (hafter c)

theorem pads_trimChars (cs : List Char) : Pads cs (trimChars cs) := by
  refine ⟨cs.takeWhile isBlank, (cs.dropWhile isBlank).rtakeWhile isBlank, ?_,
    fun c hc => List.mem_takeWhile_imp hc, fun c hc => List.mem_rtakeWhile_imp hc⟩
  simp only [trimChars_eq_rdropWhile, List.rdropWhile_append_rtakeWhile,
    List.takeWhile_append_dropWhile]

/-- Of the blanks around a text nothing is left, and of the text everything is. -/
theorem trimChars_of_pads (h : Pads cs ds) (unpadded : Unpadded ds) : trimChars cs = ds := by
  obtain ⟨before, after, rfl, hbefore, hafter⟩ := h
  rw [trimChars_eq_rdropWhile, List.dropWhile_append_of_pos hbefore]
  cases ds with
  | nil => simp only [List.nil_append, List.dropWhile_eq_nil_iff.2 hafter, List.rdropWhile_nil]
  | cons d ds =>
    have hfirst : isBlank d = false := unpadded.first d rfl
    have hlast := rdropWhile_isBlank_eq_self_iff.2 unpadded.last
    have hreverse : ∀ c ∈ after.reverse, isBlank c = true :=
      fun c hc => hafter c (List.mem_reverse.1 hc)
    rw [List.cons_append, List.dropWhile_cons_of_neg (by simp [hfirst]), ← List.cons_append,
      List.rdropWhile, List.reverse_append, List.dropWhile_append_of_pos hreverse,
      ← List.rdropWhile, hlast]

/-- A text is what is left after trimming if it is unpadded and only blanks stand around it. -/
theorem trimChars_eq_iff : trimChars cs = ds ↔ Unpadded ds ∧ Pads cs ds := by
  refine ⟨fun h => ?_, fun h => trimChars_of_pads h.2 h.1⟩
  subst h
  exact ⟨unpadded_trimChars cs, pads_trimChars cs⟩

theorem trim_eq_iff {s name : String} :
    trim s = name ↔ Unpadded name.toList ∧ Pads s.toList name.toList := by
  rw [← trimChars_eq_iff, trim, ← String.toList_inj, String.toList_ofList]

/-- Blanks around a text do not matter to what trimming leaves. -/
theorem Pads.trimChars_eq (h : Pads cs ds) : trimChars cs = trimChars ds :=
  trimChars_eq_iff.2 ⟨unpadded_trimChars ds, h.trans (pads_trimChars ds)⟩

theorem trim_eq_empty_iff {s : String} : trim s = "" ↔ Pads s.toList [] := by
  rw [trim_eq_iff, String.toList_empty, and_iff_right ⟨by simp, by simp⟩]

theorem Pads.trim_eq {s name : String} (h : Pads s.toList name.toList) (plain : Plain name) :
    trim s = name :=
  trim_eq_iff.2 ⟨(plain_iff.1 plain).2, h⟩

theorem Pads.mem {c : Char} (h : Pads cs ds) (hc : c ∈ ds) : c ∈ cs := by
  obtain ⟨before, after, rfl, -, -⟩ := h
  simp [hc]

/-- What is put around a text are blanks. -/
theorem Pads.notMem {c : Char} (h : Pads cs ds) (hblank : isBlank c = false) (hc : c ∉ ds) :
    c ∉ cs := by
  obtain ⟨before, after, rfl, hbefore, hafter⟩ := h
  have hnot : ∀ blanks : List Char, (∀ c ∈ blanks, isBlank c = true) → c ∉ blanks :=
    fun blanks hblanks hmem => Bool.false_ne_true (hblank.symm.trans (hblanks c hmem))
  simp only [List.mem_append, hnot before hbefore, hc, hnot after hafter, or_self,
    not_false_eq_true]

end Activation.Text
