-- SUMMARY: In no table of a document a name stands twice.
import Activation.Toml.Document
import Mathlib.Data.List.Nodup

/-!
# Names of a document

A document cannot define a name twice, however it is written: by dotted keys, by headers, by
elements of arrays or in tables on one line. Every change to the tree of a document keeps the names
of each of its tables distinct (`Branch.Proper`), and so does the step from the tree to its values.
-/

namespace Activation.Toml

/-- In no table of a value a name stands twice. -/
inductive Value.Proper : Value → Prop
  | string (s : String) : Proper (.string s)
  | integer (n : Int) : Proper (.integer n)
  | float (x : Binary64) : Proper (.float x)
  | boolean (b : Bool) : Proper (.boolean b)
  | datetime (d : Datetime) : Proper (.datetime d)
  | array {items : List Value} (each : ∀ v ∈ items, Proper v) : Proper (.array items)
  | table {entries : Table} (nodup : (entries.map (·.1)).Nodup) (each : ∀ e ∈ entries, Proper e.2) :
      Proper (.table entries)

/-- In no table of a tree a name stands twice. -/
inductive Tree.Proper : Tree → Prop
  | leaf {value : Value} (proper : value.Proper) : Proper (.leaf value)
  | table {origin : Origin} {b : Branch} (nodup : (b.map (·.1)).Nodup)
      (each : ∀ e ∈ b, Proper e.2) : Proper (.table origin b)
  | tables {elements : List Branch} (nodup : ∀ b ∈ elements, (b.map (·.1)).Nodup)
      (each : ∀ b ∈ elements, ∀ e ∈ b, Proper e.2) : Proper (.tables elements)

/-- The entries of an open table have distinct names, and so do those of all tables within. -/
structure Branch.Proper (b : Branch) : Prop where
  nodup : (b.map (·.1)).Nodup
  each : ∀ e ∈ b, e.2.Proper

/-! ## Values of a tree -/

theorem entriesToValues_eq_map (b : Branch) :
    entriesToValues b = b.map fun e => (e.1, e.2.toValue) := by
  induction b with
  | nil => simp only [entriesToValues, List.map_nil]
  | cons e rest ih => simp only [entriesToValues, ih, List.map_cons]

theorem elementsToValues_eq_map (elements : List Branch) :
    elementsToValues elements = elements.map fun b => .table (entriesToValues b) := by
  induction elements with
  | nil => simp only [elementsToValues, List.map_nil]
  | cons b rest ih => simp only [elementsToValues, ih, List.map_cons]

/-- A branch turns into a proper table if its names differ and its trees turn into proper values. -/
theorem proper_entriesToValues {b : Branch} (nodup : (b.map (·.1)).Nodup)
    (each : ∀ e ∈ b, e.2.toValue.Proper) : (Value.table (entriesToValues b)).Proper := by
  simp only [entriesToValues_eq_map]
  refine .table ?_ fun e he => ?_
  · simpa only [List.map_map, Function.comp_def] using nodup
  · obtain ⟨e', he', rfl⟩ := List.mem_map.1 he
    exact each e' he'

/-- Whatever a tree was opened as, its value has no name twice. -/
theorem Tree.Proper.toValue {t : Tree} (h : t.Proper) : t.toValue.Proper := by
  induction h with
  | leaf proper => simpa only [Tree.toValue] using proper
  | table nodup _ ih =>
    simp only [Tree.toValue]
    exact proper_entriesToValues nodup ih
  | tables nodup _ ih =>
    simp only [Tree.toValue, elementsToValues_eq_map]
    refine .array fun v hv => ?_
    obtain ⟨b, hb, rfl⟩ := List.mem_map.1 hv
    exact proper_entriesToValues (nodup b hb) (ih b hb)

namespace Branch

variable {b b' : Branch} {key : String} {path : List String}

theorem Proper.toValue (h : b.Proper) : (Value.table (entriesToValues b)).Proper :=
  proper_entriesToValues h.nodup fun e he => (h.each e he).toValue

theorem Proper.table {origin : Origin} (h : b.Proper) : (Tree.table origin b).Proper :=
  .table h.nodup h.each

theorem Proper.tables {elements : List Branch} (h : ∀ b ∈ elements, Proper b) :
    (Tree.tables elements).Proper :=
  .tables (fun b hb => (h b hb).nodup) fun b hb => (h b hb).each

/-! ## Changes -/

theorem bind_pure_eq_some_iff {α β : Type} {x : Option α} {f : α → β} {y : β} :
    (x >>= fun a => pure (f a)) = some y ↔ ∃ a, x = some a ∧ f a = y := by
  cases x <;> simp

theorem Proper.nil : Proper [] := ⟨.nil, fun _ h => absurd h List.not_mem_nil⟩

/-- A tree is appended only under a name that is not there. -/
theorem Proper.concat {t : Tree} (h : b.Proper) (new : ∀ e ∈ b, e.1 ≠ key) (ht : t.Proper) :
    Proper (b ++ [(key, t)]) where
  nodup := by
    simp only [List.map_append, List.map_cons, List.map_nil]
    refine List.nodup_append'.2 ⟨h.nodup, List.nodup_singleton key, fun name hname hkey => ?_⟩
    obtain ⟨e, he, rfl⟩ := List.mem_map.1 hname
    exact new e he (List.mem_singleton.1 hkey)
  each e he := by
    cases List.mem_append.1 he with
    | inl hmem => exact h.each e hmem
    | inr hlast => exact List.mem_singleton.1 hlast ▸ ht

theorem Proper.filter (h : b.Proper) (p : String × Tree → Bool) : Proper (b.filter p) where
  nodup := (List.filter_sublist.map _).nodup h.nodup
  each e he := h.each e (List.mem_of_mem_filter he)

section Update

variable {change : Option Tree → Option Tree}

/-- An update brings in the name that it is about, and no other. -/
theorem names_update (h : b.update key change = some b') :
    ∀ name, name ∈ b'.map (·.1) ↔ name = key ∨ name ∈ b.map (·.1) := by
  induction b generalizing b' with
  | nil =>
    obtain ⟨t, -, rfl⟩ := bind_pure_eq_some_iff.1 h
    simp
  | cons e rest ih =>
    simp only [update] at h
    split at h
    case isTrue heq =>
      obtain ⟨t, -, rfl⟩ := bind_pure_eq_some_iff.1 h
      simp [heq]
    case isFalse hne =>
      obtain ⟨rest', hrest, rfl⟩ := bind_pure_eq_some_iff.1 h
      intro name
      simp only [List.map_cons, List.mem_cons, ih hrest]
      exact or_left_comm

/-- Changing what stands under one name keeps names distinct, if it does so within. -/
theorem Proper.update (h : b.Proper) (new : ∀ t, change none = some t → t.Proper)
    (old : ∀ t t', t.Proper → change (some t) = some t' → t'.Proper)
    (hupdate : b.update key change = some b') : b'.Proper := by
  induction b generalizing b' with
  | nil =>
    obtain ⟨t, ht, rfl⟩ := bind_pure_eq_some_iff.1 hupdate
    exact Proper.nil.concat (fun _ he => absurd he List.not_mem_nil) (new t ht)
  | cons e rest ih =>
    obtain ⟨hfirst, hnodup⟩ := List.nodup_cons.1 h.nodup
    obtain ⟨htree, heach⟩ := List.forall_mem_cons.1 h.each
    simp only [Branch.update] at hupdate
    split at hupdate
    case isTrue heq =>
      obtain ⟨t, ht, rfl⟩ := bind_pure_eq_some_iff.1 hupdate
      exact ⟨h.nodup, List.forall_mem_cons.2 ⟨old e.2 t htree ht, heach⟩⟩
    case isFalse hne =>
      obtain ⟨rest', hrest, rfl⟩ := bind_pure_eq_some_iff.1 hupdate
      obtain ⟨hnodup', heach'⟩ := ih ⟨hnodup, heach⟩ hrest
      refine ⟨List.nodup_cons.2 ⟨fun hmem => ?_, hnodup'⟩, List.forall_mem_cons.2 ⟨htree, heach'⟩⟩
      cases (names_update hrest e.1).1 hmem with
      | inl heq => exact hne heq
      | inr hrest => exact hfirst hrest

end Update

/-- What keeps names distinct in the table at the end of a path keeps them distinct. -/
theorem Proper.enter {steps : Origin} {act : Origin → Branch → Option Branch}
    (hact : ∀ origin (b b' : Branch), b.Proper → act origin b = some b' → b'.Proper)
    {origin : Origin} (h : b.Proper) (henter : Branch.enter steps act path origin b = some b') :
    b'.Proper := by
  induction path generalizing origin b b' with
  | nil => exact hact origin b b' h henter
  | cons key path ih =>
    refine h.update (fun t ht => ?_) (fun t t' ht ht' => ?_) henter
    · obtain ⟨inner, hinner, rfl⟩ := bind_pure_eq_some_iff.1 ht
      exact (ih Proper.nil hinner).table
    · cases ht with
      | leaf => cases ht'
      | table nodup each =>
        simp only [] at ht'
        split at ht'
        case isTrue => cases ht'
        case isFalse =>
          obtain ⟨inner, hinner, rfl⟩ := bind_pure_eq_some_iff.1 ht'
          exact (ih ⟨nodup, each⟩ hinner).table
      | @tables elements nodup each =>
        obtain ⟨last, hlast, rfl⟩ := bind_pure_eq_some_iff.1 ht'
        have hopen : Proper (elements.getLast?.getD []) := by
          cases hget : elements.getLast? with
          | none => exact Proper.nil
          | some b =>
            have hb := List.mem_of_getLast? hget
            exact ⟨nodup b hb, each b hb⟩
        refine Proper.tables fun b hb => ?_
        cases List.mem_append.1 hb with
        | inl hbefore =>
          have hb := List.dropLast_subset elements hbefore
          exact ⟨nodup b hb, each b hb⟩
        | inr heq => exact List.mem_singleton.1 heq ▸ ih hopen hlast

/-- Assigning a value goes through tables to a name that is free. -/
theorem Proper.assign {value : Value} (h : b.Proper) (hvalue : value.Proper)
    (hassign : Branch.assign path key value b = some b') : b'.Proper := by
  refine h.enter (fun origin b b' hb hact => ?_) hassign
  split at hact
  case isTrue => cases hact
  case isFalse =>
    refine hb.update (fun t ht => ?_) (fun t t' _ ht => ?_) hact
    · exact Option.some.inj ht ▸ .leaf hvalue
    · cases ht

theorem Proper.assignAt {location : List String} {value : Value} (h : b.Proper)
    (hvalue : value.Proper) (hassign : Branch.assignAt location path key value b = some b') :
    b'.Proper :=
  h.enter (fun _ _ _ hb hact => hb.assign hvalue hact) hassign

/-- A table is opened anew, or it is one that was only implied by deeper ones. -/
theorem Proper.openTable (h : b.Proper) (hopen : Branch.openTable path key b = some b') :
    b'.Proper := by
  refine h.enter (fun origin b b' hb hact => ?_) hopen
  cases hlookup : b.lookup key with
  | none =>
    simp only [hlookup, Option.some.injEq] at hact
    have hnew : ∀ e ∈ b, e.1 ≠ key := fun e he heq => by
      simpa [heq] using List.lookup_eq_none_iff.1 hlookup e he
    exact hact ▸ hb.concat hnew Proper.nil.table
  | some t =>
    obtain ⟨before, after, heq, -⟩ := List.lookup_eq_some_iff.1 hlookup
    have ht : t.Proper := hb.each (key, t) (by simp [heq])
    have hrest : ∀ e ∈ b.filter fun e => e.1 ≠ key, e.1 ≠ key :=
      fun e he => of_decide_eq_true (List.mem_filter.1 he).2
    simp only [hlookup] at hact
    cases ht with
    | leaf => cases hact
    | tables => cases hact
    | @table origin _ nodup each =>
      cases origin with
      | headed => cases hact
      | dotted => cases hact
      | implied =>
        have hinner : Proper _ := ⟨nodup, each⟩
        exact Option.some.inj hact ▸ (hb.filter _).concat hrest hinner.table

/-- An element of an array of tables is appended with nothing in it. -/
theorem Proper.openElement (h : b.Proper) (hopen : Branch.openElement path key b = some b') :
    b'.Proper := by
  refine h.enter (fun origin b b' hb hact => ?_) hopen
  refine hb.update (fun t ht => ?_) (fun t t' ht ht' => ?_) hact
  · refine Option.some.inj ht ▸ Proper.tables fun b hb => ?_
    exact List.mem_singleton.1 hb ▸ Proper.nil
  · cases ht with
    | leaf => cases ht'
    | table => cases ht'
    | tables nodup each =>
      refine Option.some.inj ht' ▸ Proper.tables fun b hb => ?_
      cases List.mem_append.1 hb with
      | inl hbefore => exact ⟨nodup b hbefore, each b hbefore⟩
      | inr heq => exact List.mem_singleton.1 heq ▸ Proper.nil

end Branch

/-! ## What scans read -/

namespace Scan

variable {α β σ : Type} {p : α → Prop} {q : β → Prop}

/-- What a scan reads has a property, whatever the text is. -/
def Yields (x : Scan α) (p : α → Prop) : Prop :=
  ∀ cs a rest, x cs = some (a, rest) → p a

theorem yields_pure {a : α} (h : p a) : Yields (pure a) p := by
  intro cs a' rest hread
  cases hread
  exact h

theorem yields_failure : Yields failure p := by
  intro cs a rest hread
  cases hread

/-- What the first scan reads is known when the second one starts. -/
theorem Yields.bind {x : Scan β} {f : β → Scan α} (hx : Yields x q)
    (hf : ∀ b, q b → Yields (f b) p) : Yields (x >>= f) p := by
  intro cs a rest hread
  obtain ⟨⟨b, cs'⟩, hb, ha⟩ := Option.bind_eq_some_iff.1 hread
  exact hf b (hx cs b cs' hb) cs' a rest ha

theorem yields_bind {x : Scan β} {f : β → Scan α} (hf : ∀ b, Yields (f b) p) :
    Yields (x >>= f) p :=
  Yields.bind (q := fun _ => True) (fun _ _ _ _ => trivial) fun b _ => hf b

theorem Yields.orElse {x y : Scan α} (hx : Yields x p) (hy : Yields y p) : Yields (x <|> y) p := by
  intro cs a rest hread
  cases hcs : x cs with
  | none =>
    have heq : (x <|> y) cs = y cs := by
      simp only [HOrElse.hOrElse, OrElse.orElse, Alternative.orElse, StateT.orElse, hcs]
      rfl
    exact hy cs a rest (heq ▸ hread)
  | some r =>
    have heq : (x <|> y) cs = some r := by
      simp only [HOrElse.hOrElse, OrElse.orElse, Alternative.orElse, StateT.orElse, hcs]
      rfl
    exact hx cs a rest (hcs.trans (heq.symm.trans hread))

/-- What every step of a repetition keeps holds of what it gives in the end. -/
theorem yields_loop {step : σ → Scan (σ ⊕ α)} {q : σ → Prop}
    (hstep : ∀ s, q s → Yields (step s) (Sum.elim q p)) {s : σ} (hs : q s) :
    Yields (loop step s) p := by
  intro cs a rest hread
  fun_induction loop step s cs with
  | case1 s cs hnone => cases hread
  | case2 s cs b rest' hdone =>
    cases hread
    exact hstep s hs cs _ _ hdone
  | case3 s cs s' rest' hmore hlt ih => exact ih (hstep s hs cs _ _ hmore) hread
  | case4 => cases hread

/-- All items between separators have the property of an item. -/
theorem yields_separated {item : Scan α} {separator : Char} (hitem : Yields item p) :
    Yields (separated item separator) fun items => ∀ a ∈ items, p a := by
  refine hitem.bind fun first hfirst => ?_
  refine yields_loop (q := fun items => ∀ a ∈ items, p a) (fun items hitems => ?_)
    (List.forall_mem_singleton.2 hfirst)
  refine yields_bind fun next => ?_
  split
  · refine yields_bind fun _ => hitem.bind fun a ha => ?_
    exact yields_pure (List.forall_mem_cons.2 ⟨ha, hitems⟩)
  · exact yields_pure fun a ha => hitems a (List.mem_reverse.1 ha)

end Scan

/-! ## Values -/

open Scan

theorem yields_integerValue (n : Int) : Yields (integerValue n) Value.Proper := by
  unfold integerValue
  split
  · exact yields_pure (.integer n)
  · exact yields_failure

theorem yields_integer : Yields integer Value.Proper := by
  have hprefixed : ∀ mark base isDigit,
      Yields (prefixedInteger mark base isDigit) Value.Proper := fun _ _ _ =>
    yields_bind fun _ => yields_bind fun _ => yields_integerValue _
  have hdecimal : Yields decimalInteger Value.Proper :=
    yields_bind fun _ => yields_bind fun _ => yields_integerValue _
  exact (hprefixed _ _ _).orElse ((hprefixed _ _ _).orElse ((hprefixed _ _ _).orElse hdecimal))

theorem yields_float : Yields float Value.Proper := by
  have hdecimal : Yields decimalFloat Value.Proper := by
    refine yields_bind fun _ => yields_bind fun _ => yields_bind fun next => ?_
    have hfinite : ∀ x, Yields (if x = Binary64.infinity false then failure
        else return .float x) Value.Proper := by
      intro x
      split
      · exact yields_failure
      · exact yields_pure (.float x)
    dsimp only
    split
    · exact yields_bind fun _ => yields_bind fun _ => yields_bind fun _ => hfinite _
    · exact yields_bind fun _ => yields_bind fun _ => hfinite _
  have hspecial : Yields specialFloat Value.Proper :=
    yields_bind fun _ =>
      (yields_bind fun _ => yields_pure (.float _)).orElse
        (yields_bind fun _ => yields_pure (.float _))
  exact hdecimal.orElse hspecial

theorem yields_scalar : Yields scalar Value.Proper := by
  refine yields_bind fun next => ?_
  split
  · exact yields_bind fun _ => yields_pure (.string _)
  · exact yields_bind fun _ => yields_pure (.string _)
  · exact yields_bind fun _ => yields_pure (.boolean true)
  · exact yields_bind fun _ => yields_pure (.boolean false)
  · have hdatetime : Yields (do return Value.datetime (← datetime)) Value.Proper :=
      yields_bind fun _ => yields_pure (.datetime _)
    exact hdatetime.orElse (yields_float.orElse yields_integer)

theorem yields_arrayItems {item : Scan Value} (hitem : Yields item Value.Proper) :
    Yields (arrayItems item) Value.Proper := by
  refine yields_bind fun _ => yields_bind fun _ => ?_
  refine yields_loop (q := fun items => ∀ v ∈ items, v.Proper) (fun items hitems => ?_)
    fun _ h => absurd h List.not_mem_nil
  have hreverse : ∀ {items : List Value}, (∀ v ∈ items, v.Proper) →
      (Value.array items.reverse).Proper :=
    fun hitems => .array fun v hv => hitems v (List.mem_reverse.1 hv)
  refine yields_bind fun next => ?_
  split
  · exact yields_bind fun _ => yields_pure (hreverse hitems)
  · refine hitem.bind fun v hv => yields_bind fun _ => yields_bind fun next => ?_
    have hcons : ∀ w ∈ v :: items, w.Proper := List.forall_mem_cons.2 ⟨hv, hitems⟩
    split
    · exact yields_bind fun _ => yields_bind fun _ => yields_pure hcons
    · exact yields_bind fun _ => yields_pure (hreverse hcons)

theorem yields_definition {value : Scan Value} (hvalue : Yields value Value.Proper) :
    Yields (definition value) fun d => d.2.Proper :=
  yields_bind fun _ => yields_bind fun _ => yields_bind fun _ =>
    hvalue.bind fun _ hv => yields_pure hv

/-- Definitions that are assigned in turn cannot bring a name in twice. -/
theorem Branch.Proper.foldlM_assign {definitions : List ((List String × String) × Value)}
    {b b' : Branch} (h : b.Proper) (hdefinitions : ∀ d ∈ definitions, d.2.Proper)
    (hfold : definitions.foldlM (fun b d => Branch.assign d.1.1 d.1.2 d.2 b) b = some b') :
    b'.Proper := by
  induction definitions generalizing b with
  | nil => exact Option.some.inj hfold ▸ h
  | cons d rest ih =>
    obtain ⟨hd, hrest⟩ := List.forall_mem_cons.1 hdefinitions
    obtain ⟨next, hnext, hfold⟩ := Option.bind_eq_some_iff.1 hfold
    exact ih (h.assign hd hnext) hrest hfold

/-- An inline table is filled by assignments, like a table of its own. -/
theorem yields_inlineTable {value : Scan Value} (hvalue : Yields value Value.Proper) :
    Yields (inlineTable value) Value.Proper := by
  refine yields_bind fun _ => yields_bind fun _ => yields_bind fun next => ?_
  split
  · exact yields_bind fun _ => yields_pure (.table .nil fun _ h => absurd h List.not_mem_nil)
  · have hitem : Yields (do let d ← definition value; spaces; return d) fun d => d.2.Proper :=
      (yields_definition hvalue).bind fun _ hd => yields_bind fun _ => yields_pure hd
    refine (yields_separated hitem).bind fun definitions hdefinitions => yields_bind fun _ => ?_
    split
    case h_1 branch hbranch =>
      exact yields_pure (Branch.Proper.nil.foldlM_assign hdefinitions hbranch).toValue
    case h_2 => exact yields_failure

/-- Values hold values down to the depth that is allowed. -/
theorem yields_value (depth : Nat) : Yields (value depth) Value.Proper := by
  induction depth with
  | zero => exact yields_scalar
  | succ depth ih =>
    refine yields_bind fun next => ?_
    split
    · exact yields_arrayItems ih
    · exact yields_inlineTable ih
    · exact yields_scalar

/-! ## Documents -/

theorem yields_change {change : Option Branch} {location : List String}
    (h : ∀ b, change = some b → b.Proper) :
    Yields (Draft.change change location) fun draft => draft.root.Proper := by
  cases change with
  | none => exact yields_failure
  | some b => exact yields_pure (h b rfl)

theorem yields_line {draft : Draft} (h : draft.root.Proper) :
    Yields (line draft) fun draft => draft.root.Proper := by
  refine yields_bind fun cs => ?_
  split
  · exact yields_bind fun _ => yields_bind fun _ => yields_pure h
  · exact yields_bind fun _ => yields_bind fun _ => yields_bind fun _ => yields_bind fun _ =>
      yields_change fun _ => h.openElement
  · exact yields_bind fun _ => yields_bind fun _ => yields_bind fun _ => yields_bind fun _ =>
      yields_change fun _ => h.openTable
  · exact yields_bind fun _ => yields_pure h
  · exact yields_bind fun _ => yields_pure h
  · refine (yields_definition (yields_value maxDepth)).bind fun d hd => yields_bind fun _ => ?_
    exact yields_change fun _ => h.assignAt hd

theorem yields_lines : Yields lines fun draft => draft.root.Proper := by
  refine yields_loop (q := fun draft : Draft => draft.root.Proper) (fun draft h => ?_)
    Branch.Proper.nil
  refine yields_bind fun _ => yields_bind fun cs => ?_
  split
  · exact yields_pure h
  · exact (yields_line h).bind fun _ h => yields_pure h

/-- In no table of a document a name stands twice. -/
theorem proper_of_parse? {text : String} {entries : Table} (h : parse? text = some entries) :
    (Value.table entries).Proper := by
  have hdraft : ∃ cs draft, lines cs = some (draft, []) ∧ entriesToValues draft.root = entries := by
    unfold parse? at h
    dsimp only at h
    split at h
    case h_1 draft hlines => exact ⟨_, draft, hlines, Option.some.inj h⟩
    case h_2 => cases h
  obtain ⟨cs, draft, hlines, rfl⟩ := hdraft
  exact (yields_lines cs draft [] hlines).toValue

end Activation.Toml
