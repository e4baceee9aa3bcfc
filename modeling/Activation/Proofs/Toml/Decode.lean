-- SUMMARY: What a record has in its fields, by the table that it was read from.
import Activation.Proofs.Except
import Activation.Proofs.NameMap
import Activation.Proofs.Toml.Names
import Activation.Toml.Decode

/-!
# Fields of records

Of the entries of a table with the same name the last one counts, for the entries of a map as
well as for the fields of a record. A table is refused when one of its entries is, also one that
would not have counted: a table gives a record exactly when each of its entries is acceptable
(`Shape.exists_ofTable_iff`). An array gives the record that the table of its items gives
(`Shape.ofArray_eq_ofTable`).
-/

namespace Activation.Toml

/-- The entries by which a value gives a record: a table its own, an array its items under the
    names of the fields in turn. -/
inductive RecordOf (fields : List String) : Value → Table → Prop
  | table (entries : Table) : RecordOf fields (.table entries) entries
  /-- Surplus items have no name, and fields beyond the last item have no entry. -/
  | array (items : List Value) : RecordOf fields (.array items) (fields.zip items)

/-- What a field of a record has: what each entry of its name stands for, and its default when
    there is none. -/
structure FieldOf {α : Type} (entries : Table) (name : String) (StandsFor : Value → α → Prop)
    (default a : α) : Prop where
  given : ∀ v, (name, v) ∈ entries → StandsFor v a
  absent : (∀ v, (name, v) ∉ entries) → a = default

theorem RecordOf.unique {fields : List String} {v : Value} {entries entries' : Table}
    (h : RecordOf fields v entries) (h' : RecordOf fields v entries') : entries = entries' := by
  cases h <;> cases h' <;> rfl

theorem map_zip_sublist {α : Type} (fields : List String) (items : List α) :
    ((fields.zip items).map (·.1)).Sublist fields := by
  induction fields generalizing items with
  | nil => exact List.nil_sublist _
  | cons field fields ih =>
    cases items with
    | nil => exact List.nil_sublist _
    | cons item items => exact (ih items).cons_cons field

/-- No field is given twice, also where items stand for fields in order. -/
theorem RecordOf.nodup {fields : List String} {v : Value} {entries : Table}
    (h : RecordOf fields v entries) (hfields : fields.Nodup) (hv : v.Proper) :
    (entries.map (·.1)).Nodup := by
  cases h with
  | table =>
    cases hv with
    | table nodup _ => exact nodup
  | array items => exact (map_zip_sublist fields items).nodup hfields

namespace FieldOf

variable {α : Type} {entries : Table} {name : String} {StandsFor : Value → α → Prop}
  {default a b : α}

theorem unique (functional : ∀ v a b, StandsFor v a → StandsFor v b → a = b)
    (ha : FieldOf entries name StandsFor default a)
    (hb : FieldOf entries name StandsFor default b) : a = b := by
  by_cases h : ∃ v, (name, v) ∈ entries
  · obtain ⟨v, hv⟩ := h
    exact functional v a b (ha.given v hv) (hb.given v hv)
  · have hmissing := not_exists.1 h
    exact (ha.absent hmissing).trans (hb.absent hmissing).symm

/-- A value that is read stands for one thing only. -/
theorem unique_of_reads {read : Value → Except Misfit α}
    (reads : ∀ v a, read v = .ok a ↔ StandsFor v a)
    (ha : FieldOf entries name StandsFor default a)
    (hb : FieldOf entries name StandsFor default b) : a = b := by
  refine ha.unique (fun v a b hva hvb => ?_) hb
  exact Except.ok.inj (((reads v a).2 hva).symm.trans ((reads v b).2 hvb))

end FieldOf

namespace Shape

variable {ρ β : Type} {shape : Shape ρ} {entries : Table} {record start : ρ}

/-- What a field has is read from entries of one name, and other entries leave the field as it
    is. -/
structure HasField (shape : Shape ρ) (name : String) (read : Value → Except Misfit β)
    (field : ρ → β) : Prop where
  entered : ∀ r e r', shape.enterField r e = .ok r' → e.1 = name → read e.2 = .ok (field r')
  kept : ∀ r e r', shape.enterField r e = .ok r' → e.1 ≠ name → field r' = field r

/-- An entry is entered in the column of its name. Without one it is only accepted if names are
    not fixed, and then it changes nothing. -/
theorem column_of_enterField {r r' : ρ} {e : String × Value}
    (h : shape.enterField r e = .ok r') :
    (∃ c ∈ shape.columns, c.name = e.1 ∧ c.enter r e.2 = .ok r') ∨
      shape.isStrict = false ∧ (∀ c ∈ shape.columns, c.name ≠ e.1) ∧ r' = r := by
  unfold enterField at h
  split at h
  · rename_i c hfind
    have hname : c.name = e.1 := by simpa using List.find?_some hfind
    exact .inl ⟨c, List.mem_of_find?_eq_some hfind, hname, h⟩
  · rename_i hnone
    split at h
    · cases h
    · rename_i hstrict
      cases h
      exact .inr ⟨Bool.eq_false_iff.2 hstrict, by simpa using hnone, rfl⟩

/-- A field is entered by its own column and kept by all others. -/
theorem HasField.of_columns {name : String} {read : Value → Except Misfit β} {field : ρ → β}
    (listed : ∃ c ∈ shape.columns, c.name = name)
    (entered : ∀ c ∈ shape.columns, c.name = name → ∀ r v r', c.enter r v = .ok r' →
      read v = .ok (field r'))
    (kept : ∀ c ∈ shape.columns, c.name ≠ name → ∀ r v r', c.enter r v = .ok r' →
      field r' = field r) : shape.HasField name read field where
  entered r e r' h hname := by
    cases column_of_enterField h with
    | inl hlisted =>
      obtain ⟨c, hc, heq, henter⟩ := hlisted
      exact entered c hc (heq.trans hname) r e.2 r' henter
    | inr hunlisted =>
      obtain ⟨c, hc, heq⟩ := listed
      exact absurd (heq.trans hname.symm) (hunlisted.2.1 c hc)
  kept r e r' h hname := by
    cases column_of_enterField h with
    | inl hlisted =>
      obtain ⟨c, hc, heq, henter⟩ := hlisted
      exact kept c hc (fun hc => hname (heq.symm.trans hc)) r e.2 r' henter
    | inr hunlisted => rw [hunlisted.2.2]

/-- A field has what is read from the last entry of its name, or what it had before. -/
theorem HasField.of_foldlM {name : String} {read : Value → Except Misfit β} {field : ρ → β}
    (h : shape.HasField name read field)
    (accepted : entries.foldlM shape.enterField start = .ok record) :
    ((NameMap.valuesFor name entries).getLast?).elim (.ok (field start)) read =
      .ok (field record) := by
  induction entries generalizing start with
  | nil =>
    cases accepted
    rfl
  | cons e rest ih =>
    rw [List.foldlM_cons] at accepted
    obtain ⟨next, hnext, hrest⟩ := bind_eq_ok_iff.1 accepted
    have hlast := ih hrest
    rw [NameMap.valuesFor_cons]
    split
    · rename_i hname
      rw [List.getLast?_cons]
      cases hvalues : (NameMap.valuesFor name rest).getLast? with
      | none =>
        rw [hvalues] at hlast
        exact (h.entered _ _ _ hnext hname).trans hlast
      | some later =>
        rw [hvalues] at hlast
        exact hlast
    · rename_i hname
      rw [h.kept _ _ _ hnext hname] at hlast
      exact hlast

/-- Where no name stands twice, a field has what the entry of its name stands for. -/
theorem HasField.fieldOf {name : String} {read : Value → Except Misfit β} {field : ρ → β}
    {StandsFor : Value → β → Prop} (h : shape.HasField name read field)
    (nodup : (entries.map (·.1)).Nodup)
    (reads : ∀ v b, (name, v) ∈ entries → read v = .ok b → StandsFor v b)
    (accepted : shape.ofTable entries = .ok record) :
    FieldOf entries name StandsFor (field shape.initial) (field record) where
  given v hv := by
    have hlast := h.of_foldlM accepted
    simp only [NameMap.getLast?_valuesFor nodup hv, Option.elim_some] at hlast
    exact reads v _ hv hlast
  absent missing := by
    have hlast := h.of_foldlM accepted
    simp only [NameMap.valuesFor_eq_nil_iff.2 missing, List.getLast?_nil, Option.elim_none,
      Except.ok.injEq] at hlast
    exact hlast.symm

/-! ## Accepted tables and arrays -/

theorem find?_column (nodup : (shape.columns.map (·.name)).Nodup) {c : Column ρ}
    (hc : c ∈ shape.columns) : (shape.columns.find? fun d => d.name = c.name) = some c := by
  cases hfind : shape.columns.find? fun d => d.name = c.name with
  | none =>
    have hnone := List.find?_eq_none.1 hfind c hc
    exact absurd (decide_eq_true rfl) hnone
  | some d =>
    have hname : d.name = c.name := by simpa using List.find?_some hfind
    exact congrArg some
      (List.inj_on_of_nodup_map nodup (List.mem_of_find?_eq_some hfind) hc hname)

/-- An entry is accepted when the column of its name takes its value, or when it has none and
    names are not fixed. -/
theorem exists_enterField_iff (nodup : (shape.columns.map (·.name)).Nodup) {r : ρ} {name : String}
    {v : Value} : (∃ r', shape.enterField r (name, v) = .ok r') ↔
      (∃ c ∈ shape.columns, c.name = name ∧ ∃ r', c.enter r v = .ok r') ∨
        shape.isStrict = false ∧ ∀ c ∈ shape.columns, c.name ≠ name := by
  constructor
  · intro h
    obtain ⟨r', h⟩ := h
    cases column_of_enterField h with
    | inl hlisted =>
      obtain ⟨c, hc, hname, henter⟩ := hlisted
      exact .inl ⟨c, hc, hname, r', henter⟩
    | inr hunlisted => exact .inr ⟨hunlisted.1, hunlisted.2.1⟩
  · intro h
    cases h with
    | inl hlisted =>
      obtain ⟨c, hc, rfl, r', henter⟩ := hlisted
      exact ⟨r', by simpa only [enterField, find?_column nodup hc] using henter⟩
    | inr hunlisted =>
      have hnone : (shape.columns.find? fun c => c.name = name) = none := by
        simpa using hunlisted.2
      exact ⟨r, by simp [enterField, hnone, hunlisted.1]⟩

/-- A table gives a record when each of its entries is acceptable, whatever stands around it. -/
theorem exists_ofTable_iff {IsEntry : String × Value → Prop}
    (accepts : ∀ r e, (∃ r', shape.enterField r e = .ok r') ↔ IsEntry e) :
    (∃ r, shape.ofTable entries = .ok r) ↔ ∀ e ∈ entries, IsEntry e := by
  constructor
  · intro h e he
    obtain ⟨record, accepted⟩ := h
    obtain ⟨r, r', hstep⟩ := exists_step_of_foldlM accepted e he
    exact (accepts r e).1 ⟨r', hstep⟩
  · intro h
    exact exists_foldlM (fun e he r => (accepts r e).2 (h e he)) shape.initial

/-- An array gives the record of the table that has its items under the names of the fields. -/
theorem ofArray_eq_ofTable (nodup : (shape.columns.map (·.name)).Nodup) (items : List Value) :
    shape.ofArray items = shape.ofTable ((shape.columns.map (·.name)).zip items) := by
  have henter : ∀ (pairs : List (Column ρ × Value)), (∀ p ∈ pairs, p.1 ∈ shape.columns) →
      ∀ r, pairs.foldlM (fun r p => p.1.enter r p.2) r =
        (pairs.map (Prod.map (·.name) id)).foldlM shape.enterField r := by
    intro pairs
    induction pairs with
    | nil => exact fun _ _ => rfl
    | cons p rest ih =>
      intro hmem r
      have hfirst : shape.enterField r (p.1.name, p.2) = p.1.enter r p.2 := by
        simp only [enterField, find?_column nodup (hmem p List.mem_cons_self)]
      simp only [List.foldlM_cons, List.map_cons, Prod.map, id, hfirst]
      exact bind_congr fun r' => ih (fun q hq => hmem q (List.mem_cons_of_mem p hq)) r'
  simp only [ofArray, ofTable, List.zip_map_left]
  exact henter _ (fun p hp => (List.of_mem_zip hp).1) _

/-- A value gives the record of its entries. A date-time has one under a reserved name. -/
theorem ofValue_eq_ok_iff (nodup : (shape.columns.map (·.name)).Nodup) {v : Value} :
    shape.ofValue v = .ok record ↔
      (∃ entries, RecordOf (shape.columns.map (·.name)) v entries ∧
        shape.ofTable entries = .ok record) ∨
      ∃ d : Datetime, v = .datetime d ∧
        shape.ofTable [(datetimeField, .string d.text)] = .ok record := by
  constructor
  · intro h
    cases v with
    | table entries => exact .inl ⟨entries, .table entries, h⟩
    | array items => exact .inl ⟨_, .array items, (ofArray_eq_ofTable nodup items) ▸ h⟩
    | datetime d => exact .inr ⟨d, rfl, h⟩
    | _ => cases h
  · intro h
    cases h with
    | inl hrecord =>
      obtain ⟨entries, hentries, accepted⟩ := hrecord
      cases hentries with
      | table => exact accepted
      | array items => exact (ofArray_eq_ofTable nodup items).trans accepted
    | inr hdatetime =>
      obtain ⟨d, rfl, accepted⟩ := hdatetime
      exact accepted

/-- The text of a document gives the record of its table. -/
theorem parse_eq_ok_iff {text : String} :
    shape.parse text = .ok record ↔
      ∃ entries, parse? text = some entries ∧ shape.ofTable entries = .ok record := by
  unfold parse
  cases parse? text with
  | none => simp
  | some entries => simp [mapError_eq_ok_iff]

end Shape

namespace Value

variable {α : Type} {read : Value → Except Misfit α} {m : NameMap α} {v : Value}

theorem toBool_eq_ok_iff {b : Bool} : v.toBool = .ok b ↔ v = .boolean b := by
  cases v with
  | boolean b => simp [toBool]
  | _ => simp [toBool]

theorem toText_eq_ok_iff {text : String} : v.toText = .ok text ↔ v = .string text := by
  cases v with
  | string s => simp [toText]
  | _ => simp [toText]

theorem toTexts_eq_ok_iff {texts : List String} :
    v.toTexts = .ok texts ↔ v = .array (texts.map .string) := by
  cases v with
  | array items =>
    have hmap := List.forall₂_map_right_iff (R := Eq) (f := Value.string) (l := items) (u := texts)
    simp only [List.forall₂_eq_eq_eq] at hmap
    simp only [toTexts, mapM_eq_ok_iff, toText_eq_ok_iff, array.injEq, hmap]
  | _ => simp [toTexts]

theorem toHint_eq_ok_iff {hint : OrderHint} : v.toHint = .ok hint ↔ v = .integer hint.toInt := by
  cases v with
  | integer n =>
    simp only [toHint, integer.injEq, eq_comm (a := n), ← OrderHint.ofInt?_eq_some_iff]
    cases OrderHint.ofInt? n with
    | none => simp
    | some hint' => simp
  | _ => simp [toHint]

/-- A map holds what is read from the entries of a table, each under its own name. -/
theorem toMap_eq_ok_iff : v.toMap read = .ok m ↔
    ∃ entries given, v.toTable = .ok entries ∧
      List.Forall₂ (fun e e' => e.1 = e'.1 ∧ read e.2 = .ok e'.2) entries given ∧
      m = .ofList given := by
  have hentry : ∀ (e : String × Value) (e' : String × α),
      (do return (e.1, ← read e.2) : Except Misfit (String × α)) = .ok e' ↔
        e.1 = e'.1 ∧ read e.2 = .ok e'.2 := by
    intro e e'
    rw [bind_eq_ok_iff]
    constructor
    · intro h
      obtain ⟨a, ha, hpair⟩ := h
      cases hpair
      exact ⟨rfl, ha⟩
    · intro h
      exact ⟨e'.2, h.2, by rw [h.1]; rfl⟩
  simp only [toMap, bind_eq_ok_iff, mapM_eq_ok_iff, hentry]
  constructor
  · intro h
    obtain ⟨entries, hentries, given, hgiven, hmap⟩ := h
    cases hmap
    exact ⟨entries, given, hentries, hgiven, rfl⟩
  · intro h
    obtain ⟨entries, given, hentries, hgiven, rfl⟩ := h
    exact ⟨entries, hentries, given, hgiven, rfl⟩

/-- A table is read as a map exactly if each of its values is read. -/
theorem exists_toMap_iff : (∃ m, v.toMap read = .ok m) ↔
    ∃ entries, v.toTable = .ok entries ∧ ∀ e ∈ entries, ∃ a, read e.2 = .ok a := by
  simp only [toMap_eq_ok_iff]
  constructor
  · intro h
    obtain ⟨_, entries, given, hentries, hgiven, -⟩ := h
    refine ⟨entries, hentries, fun e he => ?_⟩
    obtain ⟨e', -, hread⟩ := exists_forall₂_iff.1 ⟨given, hgiven⟩ e he
    exact ⟨e'.2, hread⟩
  · intro h
    obtain ⟨entries, hentries, each⟩ := h
    obtain ⟨given, hgiven⟩ : ∃ given : List (String × α),
        List.Forall₂ (fun e e' => e.1 = e'.1 ∧ read e.2 = .ok e'.2) entries given :=
      exists_forall₂_iff.2 fun e he => (each e he).elim fun a hread => ⟨(e.1, a), rfl, hread⟩
    exact ⟨.ofList given, entries, given, hentries, hgiven, rfl⟩

end Value

end Activation.Toml
