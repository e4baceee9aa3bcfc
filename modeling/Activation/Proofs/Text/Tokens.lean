-- SUMMARY: What the names of a comma-separated text are.
import Activation.Proofs.Text.Blank
import Activation.Text.Tokens

/-!
# Names between commas

A name of a comma-separated text is what trimming leaves of a part between two commas, if it
leaves anything. Joining texts by commas puts their names together, so it does not matter in how
many texts names are listed.
-/

namespace Activation.Text

variable {separator : Char} {cs part : List Char} {parts : List (List Char)} {s name : String}

/-! ## Pieces -/

/-- A part of a text between two separators, where the ends of the text count as separators. -/
structure Part (separator : Char) (cs part : List Char) : Prop where
  uncut : separator ∉ part
  placed : ∃ before after, cs = before ++ (part ++ after) ∧
    (∀ c ∈ before.getLast?, c = separator) ∧ ∀ c ∈ after.head?, c = separator

theorem pieces_eq_splitOn (separator : Char) (cs : List Char) :
    pieces separator cs = cs.splitOn separator := by
  induction cs with
  | nil => rfl
  | cons c cs ih =>
    rw [List.splitOn_cons_eq_if_modifyHead, pieces, ih]
    by_cases heq : c = separator
    · simp only [heq, if_true, beq_self_eq_true]
    · simp only [heq, if_false, beq_eq_false_iff_ne.2 heq, Bool.false_eq_true]
      cases hsplit : cs.splitOn separator with
      | nil => exact absurd hsplit (List.splitOn_ne_nil separator cs)
      | cons piece others => rfl

/-- The text is its pieces with separators between them. -/
theorem intercalate_pieces (separator : Char) (cs : List Char) :
    [separator].intercalate (pieces separator cs) = cs := by
  rw [pieces_eq_splitOn, List.intercalate_splitOn]

theorem pieces_append_cons (separator : Char) (cs ds : List Char) :
    pieces separator (cs ++ separator :: ds) = pieces separator cs ++ pieces separator ds := by
  simp only [pieces_eq_splitOn, List.splitOn_append_cons_self]

theorem pieces_of_notMem (h : separator ∉ cs) : pieces separator cs = [cs] := by
  rw [pieces_eq_splitOn, List.splitOn_eq_singleton h]

/-- A text is cut at every separator, so no piece has one in it. -/
theorem notMem_of_mem_pieces (h : part ∈ pieces separator cs) : separator ∉ part := by
  induction cs generalizing part with
  | nil => simp_all [pieces]
  | cons c cs ih =>
    rw [pieces] at h
    split at h
    · cases List.mem_cons.1 h with
      | inl heq => simp [heq]
      | inr hrest => exact ih hrest
    · rename_i hne
      cases hpieces : pieces separator cs with
      | nil => simp_all [Ne.symm hne]
      | cons piece others =>
        rw [hpieces] at h ih
        cases List.mem_cons.1 h with
        | inl heq =>
          subst heq
          simp only [List.mem_cons, Ne.symm hne, ih List.mem_cons_self, or_self, not_false_eq_true]
        | inr hrest => exact ih (List.mem_cons_of_mem piece hrest)

/-- Of joined parts each stands between two separators. -/
theorem part_intercalate (h : part ∈ parts) (uncut : separator ∉ part) :
    Part separator ([separator].intercalate parts) part := by
  induction parts with
  | nil => cases h
  | cons first rest ih =>
    by_cases hrest : part ∈ rest
    · -- Nothing changes before the part but the parts that stand further ahead.
      obtain ⟨-, before, after, hplaced, hbefore, hafter⟩ := ih hrest
      refine ⟨uncut, first ++ separator :: before, after, ?_, ?_, hafter⟩
      · rw [List.intercalate_cons_of_ne_nil (List.ne_nil_of_mem hrest), hplaced]
        simp
      · intro c hc
        rw [List.getLast?_append_cons, List.getLast?_cons] at hc
        cases hlast : before.getLast? with
        | none => simp_all
        | some d => simp_all
    · have heq : part = first := (List.mem_cons.1 h).resolve_right hrest
      subst heq
      cases rest with
      | nil => exact ⟨uncut, [], [], by simp, by simp, by simp⟩
      | cons second rest =>
        exact ⟨uncut, [], separator :: [separator].intercalate (second :: rest), by simp, by simp,
          by simp⟩

/-- A part between separators, or at an end of the text, is a piece of it. -/
theorem mem_pieces_of_placed {before after : List Char} (uncut : separator ∉ part)
    (hbefore : ∀ c ∈ before.getLast?, c = separator) (hafter : ∀ c ∈ after.head?, c = separator) :
    part ∈ pieces separator (before ++ (part ++ after)) := by
  have hfirst : part ∈ pieces separator (part ++ after) := by
    cases after with
    | nil => simp [pieces_of_notMem uncut]
    | cons c after =>
      cases hafter c rfl
      simp [pieces_append_cons, pieces_of_notMem uncut]
  cases before using List.reverseRecOn with
  | nil => exact hfirst
  | append_singleton before c =>
    cases hbefore c (by simp)
    rw [List.append_assoc, List.singleton_append, pieces_append_cons]
    exact List.mem_append_right _ hfirst

/-- The pieces of a text are its parts between separators. -/
theorem mem_pieces_iff : part ∈ pieces separator cs ↔ Part separator cs part := by
  refine ⟨fun h => ?_, fun h => ?_⟩
  · have hpart := part_intercalate h (notMem_of_mem_pieces h)
    rwa [intercalate_pieces] at hpart
  · obtain ⟨uncut, before, after, rfl, hbefore, hafter⟩ := h
    exact mem_pieces_of_placed uncut hbefore hafter

/-! ## Names -/

/-- The names of a text are its parts between commas, without the blanks around them. -/
theorem mem_tokens_iff :
    name ∈ tokens s ↔ Plain name ∧ ∃ part, Part ',' s.toList part ∧ Pads part name.toList := by
  simp only [tokens, List.mem_filter, List.mem_map, mem_pieces_iff, decide_eq_true_eq, plain_iff]
  refine ⟨fun h => ?_, fun h => ?_⟩
  · obtain ⟨⟨part, hpart, rfl⟩, hne⟩ := h
    simp only [String.toList_ofList]
    exact ⟨⟨hne, unpadded_trimChars part⟩, part, hpart, pads_trimChars part⟩
  · obtain ⟨⟨hne, unpadded⟩, part, hpart, pads⟩ := h
    refine ⟨⟨part, hpart, ?_⟩, hne⟩
    rw [trimChars_of_pads pads unpadded, String.ofList_toList]

theorem plain_of_mem_tokens (h : name ∈ tokens s) : Plain name :=
  (mem_tokens_iff.1 h).1

/-- No name contains a comma. -/
theorem notMem_of_mem_tokens (h : name ∈ tokens s) : ',' ∉ name.toList := by
  obtain ⟨-, part, hpart, pads⟩ := mem_tokens_iff.1 h
  exact fun hcomma => hpart.uncut (pads.mem hcomma)

@[simp] theorem tokens_empty : tokens "" = [] := rfl

/-- A text without commas is one name, or none. -/
theorem tokens_of_notMem (h : ',' ∉ s.toList) : tokens s = [trim s].filter (· ≠ "") := by
  simp only [tokens, pieces_of_notMem h, List.map_cons, List.map_nil]
  rfl

/-- Blanks around a text without commas do not matter to its names. -/
theorem tokens_of_pads {t : String} (pads : Pads s.toList t.toList) (h : ',' ∉ t.toList) :
    tokens s = tokens t := by
  have htrim : trim s = trim t := congrArg String.ofList pads.trimChars_eq
  rw [tokens_of_notMem h, tokens_of_notMem (pads.notMem rfl h), htrim]

theorem tokens_of_blank (h : Pads s.toList []) : tokens s = [] :=
  (tokens_of_pads (t := "") h List.not_mem_nil).trans tokens_empty

theorem tokens_append (s t : String) : tokens (s ++ "," ++ t) = tokens s ++ tokens t := by
  have hcomma : ",".toList = [','] := rfl
  simp only [tokens, String.toList_append, hcomma, List.append_assoc, List.singleton_append,
    pieces_append_cons, List.map_append, List.filter_append]

/-- The names of joined texts are those of the first, of the second, and so on. -/
theorem tokens_intercalate (texts : List String) :
    tokens (",".intercalate texts) = texts.flatMap tokens := by
  induction texts with
  | nil => rfl
  | cons first rest ih =>
    cases rest with
    | nil => simp
    | cons second rest =>
      rw [String.intercalate_cons_of_ne_nil (List.cons_ne_nil _ _), tokens_append, ih]
      rfl

/-- Texts without commas are read back from their list, trimmed and without empty ones. -/
theorem tokens_intercalate_of_notMem {texts : List String}
    (h : ∀ text ∈ texts, ',' ∉ text.toList) :
    tokens (",".intercalate texts) = (texts.map trim).filter (· ≠ "") := by
  rw [tokens_intercalate]
  induction texts with
  | nil => rfl
  | cons first rest ih =>
    have hfirst := tokens_of_notMem (h first List.mem_cons_self)
    have hrest := ih fun text htext => h text (List.mem_cons_of_mem first htext)
    simp only [List.flatMap_cons, List.map_cons, hfirst, hrest, List.filter_cons, List.filter_nil]
    split
    · rfl
    · rfl

/-- Every text is texts without commas, joined by commas. -/
theorem exists_intercalate_eq (s : String) :
    ∃ texts : List String, (∀ text ∈ texts, ',' ∉ text.toList) ∧ ",".intercalate texts = s := by
  refine ⟨(pieces ',' s.toList).map String.ofList, fun text htext => ?_, ?_⟩
  · obtain ⟨piece, hpiece, rfl⟩ := List.mem_map.1 htext
    rw [String.toList_ofList]
    exact notMem_of_mem_pieces hpiece
  · have htoList : String.toList ∘ String.ofList = id := funext fun cs => String.toList_ofList
    rw [← String.toList_inj, String.toList_intercalate, List.map_map, htoList, List.map_id]
    exact intercalate_pieces ',' s.toList

end Activation.Text
