-- SUMMARY: Which values of an attribute list which names.
import Activation.Proofs.Index.Recording
import Activation.Proofs.Text.Tokens

/-!
# Lists of names as attributes

A list attribute may be an array of texts or one text with commas between the names. In both,
names may stand in any order and repeatedly, with blanks around them and empty texts between them.
Every such spelling reads as the same names, and nothing else reads as names.
-/

namespace Activation

/-- Texts spell out names: each is one of them with blanks around it, or is blank, and no name is
    missing. -/
structure NameSet.SpelledBy (names : NameSet) (texts : List String) : Prop where
  each : ∀ text ∈ texts, Text.Pads text.toList [] ∨
    ∃ name ∈ names, Text.Pads text.toList name.toList
  every : ∀ name ∈ names, ∃ text ∈ texts, Text.Pads text.toList name.toList

/-- Texts spell out what trimming leaves of them. -/
theorem NameSet.spelledBy_iff {names : NameSet} {texts : List String} :
    names = ofList ((texts.map Text.trim).filter (· ≠ "")) ↔
      names.SpelledBy texts ∧ ∀ name ∈ names, Text.Plain name := by
  have hmem : ∀ x, x ∈ ofList ((texts.map Text.trim).filter (· ≠ "")) ↔
      (∃ text ∈ texts, Text.trim text = x) ∧ x ≠ "" := by simp
  refine ⟨fun h => ?_, fun h => ext_mem fun x => ?_⟩
  · subst h
    refine ⟨⟨fun text htext => ?_, fun name hname => ?_⟩, fun name hname => ?_⟩
    · by_cases hblank : Text.trim text = ""
      · exact .inl (Text.trim_eq_empty_iff.1 hblank)
      · exact .inr ⟨_, (hmem _).2 ⟨⟨text, htext, rfl⟩, hblank⟩, (Text.trim_eq_iff.1 rfl).2⟩
    · obtain ⟨⟨text, htext, htrim⟩, -⟩ := (hmem name).1 hname
      exact ⟨text, htext, (Text.trim_eq_iff.1 htrim).2⟩
    · obtain ⟨⟨text, -, rfl⟩, hne⟩ := (hmem name).1 hname
      exact ⟨hne, Text.trim_trim text⟩
  · obtain ⟨spelled, plain⟩ := h
    rw [hmem]
    refine ⟨fun hx => ?_, fun hx => ?_⟩
    · obtain ⟨text, htext, pads⟩ := spelled.every x hx
      exact ⟨⟨text, htext, pads.trim_eq (plain x hx)⟩, (plain x hx).1⟩
    · obtain ⟨⟨text, htext, rfl⟩, hne⟩ := hx
      cases spelled.each text htext with
      | inl blank => exact absurd (Text.trim_eq_empty_iff.2 blank) hne
      | inr named =>
        obtain ⟨name, hname, pads⟩ := named
        rwa [pads.trim_eq (plain name hname)]

namespace Index

variable {v : Toml.Value} {names : NameSet} {items : List Toml.Value} {texts : List String}

/-- A value lists names, as an array of texts or as one text. -/
inductive Lists : Toml.Value → NameSet → Prop
  | array {texts : List String} {names : NameSet} (spelled : names.SpelledBy texts) :
      Lists (.array (texts.map .string)) names
  /-- The texts are joined by commas, so no name may contain one. -/
  | joined {texts : List String} {names : NameSet} (spelled : names.SpelledBy texts)
      (uncut : ∀ name ∈ names, ',' ∉ name.toList) :
      Lists (.string (",".intercalate texts)) names

/-- A value lists no names: it is neither a text nor an array, or not all its items are texts. -/
inductive Malformed : Toml.Value → Prop
  | scalar {v : Toml.Value} (text : ∀ s, v ≠ .string s) (array : ∀ items, v ≠ .array items) :
      Malformed v
  | item {items : List Toml.Value} {item : Toml.Value} (mem : item ∈ items)
      (text : ∀ s, item ≠ .string s) : Malformed (.array items)

/-! ## Reading values -/

/-- Either all items of an array are texts, or some item is none. -/
theorem texts_or_item (items : List Toml.Value) :
    (∃ texts : List String, items = texts.map .string) ∨ ∃ item ∈ items, ∀ s, item ≠ .string s := by
  by_cases h : ∀ item ∈ items, ∃ s, item = .string s
  · left
    induction items with
    | nil => exact ⟨[], rfl⟩
    | cons item items ih =>
      obtain ⟨s, rfl⟩ := h item List.mem_cons_self
      obtain ⟨texts, rfl⟩ := ih fun item hitem => h item (List.mem_cons_of_mem _ hitem)
      exact ⟨s :: texts, rfl⟩
  · right
    simpa only [not_forall, not_exists, exists_prop] using h

theorem nameOfValue?_of_ne (h : ∀ s, v ≠ .string s) : nameOfValue? v = none := by
  cases v with
  | string s => exact absurd rfl (h s)
  | _ => rfl

theorem mapM_nameOfValue?_of_mem {item : Toml.Value} (mem : item ∈ items)
    (text : ∀ s, item ≠ .string s) : items.mapM nameOfValue? = none := by
  induction items with
  | nil => cases mem
  | cons first items ih =>
    rw [List.mapM_cons]
    cases List.mem_cons.1 mem with
    | inl heq =>
      subst heq
      simp only [nameOfValue?_of_ne text, Option.bind_eq_bind, Option.bind_none]
    | inr hrest => simp only [ih hrest, Option.bind_eq_bind, Option.bind_none, Option.bind_fun_none]

theorem namesOfValue?_of_malformed (h : Malformed v) : namesOfValue? v = none := by
  cases h with
  | scalar text array =>
    cases v with
    | string s => exact absurd rfl (text s)
    | array items => exact absurd rfl (array items)
    | _ => rfl
  | item mem text =>
    simp only [namesOfValue?, mapM_nameOfValue?_of_mem mem text, Option.bind_eq_bind,
      Option.bind_none]

/-- A value reads as the names that it lists. -/
theorem namesOfValue?_of_lists (h : Lists v names) (plain : ∀ name ∈ names, Text.Plain name) :
    namesOfValue? v = some names := by
  cases h with
  | array spelled => rw [namesOfValue?_array, ← NameSet.spelledBy_iff.2 ⟨spelled, plain⟩]
  | @joined texts _ spelled uncut =>
    -- Neither a name nor a blank is a comma.
    have hcomma : ∀ text ∈ texts, ',' ∉ text.toList := by
      intro text htext
      cases spelled.each text htext with
      | inl blank => exact blank.notMem rfl List.not_mem_nil
      | inr named =>
        obtain ⟨name, hname, pads⟩ := named
        exact pads.notMem rfl (uncut name hname)
    rw [namesOfValue?, Text.tokens_intercalate_of_notMem hcomma,
      ← NameSet.spelledBy_iff.2 ⟨spelled, plain⟩]

/-- A value either reads as names that it lists, or lists none. -/
theorem reads_or_malformed (v : Toml.Value) :
    (∃ names, namesOfValue? v = some names ∧ Lists v names ∧ ∀ name ∈ names, Text.Plain name) ∨
      Malformed v := by
  cases v with
  | string s =>
    left
    obtain ⟨texts, uncut, rfl⟩ := Text.exists_intercalate_eq s
    obtain ⟨spelled, plain⟩ := NameSet.spelledBy_iff.1
      (congrArg NameSet.ofList (Text.tokens_intercalate_of_notMem uncut))
    refine ⟨_, rfl, .joined spelled fun name hname => ?_, plain⟩
    exact Text.notMem_of_mem_tokens (NameSet.mem_ofList.1 hname)
  | array items =>
    cases texts_or_item items with
    | inl texts =>
      obtain ⟨texts, rfl⟩ := texts
      have hnames := namesOfValue?_array texts
      obtain ⟨spelled, plain⟩ := NameSet.spelledBy_iff.1 (Eq.refl (NameSet.ofList _))
      exact .inl ⟨_, hnames, .array spelled, plain⟩
    | inr item =>
      obtain ⟨item, mem, text⟩ := item
      exact .inr (.item mem text)
  | _ => exact .inr (.scalar (by simp) (by simp))

/-- Names are read exactly from a value that lists them, and none of them needs trimming. -/
theorem namesOfValue?_eq_some_iff :
    namesOfValue? v = some names ↔ Lists v names ∧ ∀ name ∈ names, Text.Plain name := by
  refine ⟨fun h => ?_, fun h => namesOfValue?_of_lists h.1 h.2⟩
  cases reads_or_malformed v with
  | inl reads =>
    obtain ⟨names', hnames', lists, plain⟩ := reads
    cases h.symm.trans hnames'
    exact ⟨lists, plain⟩
  | inr malformed => cases h.symm.trans (namesOfValue?_of_malformed malformed)

/-- Whatever is not malformed can be read, so reading fails in no other case. -/
theorem namesOfValue?_eq_none_iff : namesOfValue? v = none ↔ Malformed v := by
  refine ⟨fun h => ?_, namesOfValue?_of_malformed⟩
  cases reads_or_malformed v with
  | inl reads =>
    obtain ⟨names, hnames, -⟩ := reads
    cases h.symm.trans hnames
  | inr malformed => exact malformed

/-! ## Reading attributes -/

variable {index : Index} {id : ModuleId} {name : String}

theorem getNames_of_malformed (h : index.get? id name = some v) (malformed : Malformed v) :
    index.getNames id name = .error ⟨id, name, .names⟩ := by
  simp only [getNames, read, h, namesOfValue?_of_malformed malformed]

theorem getNames_of_namesOfValue? (h : index.get? id name = some v)
    (reads : namesOfValue? v = some names) : index.getNames id name = .ok names := by
  simp only [getNames, read, h, reads]

/-- A list attribute reads as the names that it lists in whatever spelling, without blanks around
    them. It reads as no names where it is absent, and it fails where it is malformed. -/
theorem every_spelling_reads (index : Index) (id : ModuleId) (name : String) :
    (∀ names, index.getNames id name = .ok names ↔
      index.get? id name = none ∧ names = ∅ ∨
      ∃ v, index.get? id name = some v ∧ Lists v names ∧
        ∀ n ∈ names, n ≠ "" ∧ Text.Unpadded n.toList) ∧
    ∀ failure, index.getNames id name = .error failure ↔
      failure = ⟨id, name, .names⟩ ∧
        ∃ v, index.get? id name = some v ∧ Malformed v := by
  simp only [← Text.plain_iff, ← namesOfValue?_eq_some_iff, ← namesOfValue?_eq_none_iff]
  unfold getNames read
  cases index.get? id name with
  | none => simp [eq_comm]
  | some v =>
    cases hnames : namesOfValue? v with
    | none => simp [hnames, eq_comm]
    | some names => simp [hnames]

end Index

end Activation
