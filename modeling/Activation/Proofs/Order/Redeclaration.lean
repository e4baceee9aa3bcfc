-- SUMMARY: The order depends on hints and on which modules must precede which, whoever declares it.
import Activation.Proofs.Order.Table
import Mathlib

/-!
# Redeclared constraints

A constraint may be declared by either of its modules, or by both, and names of other modules
than candidates mean nothing. So sources that give the same hints and induce the same
constraints order candidates alike, down to the conflict that they report. The reason is that
both lead to the same baseline and, as the rows of the predecessor table ascend, to the same
table; the walk sees nothing else.
-/

namespace Activation.Order

/-! ## Walks over named nodes -/

section Named

variable {n : Nat} {table : Precedence n}

/-- The outcome of a walk over nodes with names. -/
def named (names : Fin n → ModuleId) (table : Precedence n) : Except Conflict (List ModuleId) :=
  match walk table with
  | .ok order => .ok (order.map names)
  | .error e => .error ⟨names e.node, names e.predecessor⟩

/-- A walk over tables with the same edges goes the same way, whatever declared the edges. -/
theorem named_congr {m : Nat} {table' : Precedence m} {names : Fin n → ModuleId}
    {names' : Fin m → ModuleId} (size : n = m) (h : table.Ascending) (h' : table'.Ascending)
    (hnames : ∀ p, names p = names' (p.cast size))
    (same : ∀ q p, Direct table q p ↔ Direct table' (q.cast size) (p.cast size)) :
    named names table = named names' table' := by
  subst size
  have hnames : names = names' := funext hnames
  rw [h.eq h' same, hnames]

end Named

/-! ## Arrangements of redeclared modules -/

section Arrangement

variable {modules modules' : List Declared}

/-- An arrangement depends on the names and on the table, and on nothing else. -/
theorem arrange_eq_named (modules : List Declared) :
    arrange modules =
      named (fun p => (moduleAt (ranked modules) p).id) (precedence (ranked modules)) := by
  simp only [arrange, named, ranked]
  cases walk (precedence (baseline modules).toArray) with
  | ok order => rfl
  | error e => rfl

/-- What the baseline is sorted by. -/
def Declared.key (d : Declared) : OrderHint × ModuleId := (d.metadata.order, d.id)

/-- The baseline is sorted by hints, and names come along. -/
theorem map_key_baseline (modules : List Declared) :
    (baseline modules).map Declared.key =
      (modules.map Declared.key).mergeSort fun a b => a.1 ≤ b.1 := by
  apply List.map_mergeSort
  intro a _ b _
  rfl

theorem baselineIds_congr (keys : modules.map Declared.key = modules'.map Declared.key) :
    baselineIds modules = baselineIds modules' := by
  have hids : ∀ modules, baselineIds modules = ((baseline modules).map Declared.key).map (·.2) := by
    intro modules
    simp [baselineIds, Declared.key]
  rw [hids, hids, map_key_baseline, map_key_baseline, keys]

/-- An arrangement depends on hints, names and constraints only. -/
theorem arrange_congr (h : ByName modules) (h' : ByName modules')
    (keys : modules.map Declared.key = modules'.map Declared.key)
    (same : ∀ a b, MustPrecede modules a b ↔ MustPrecede modules' a b) :
    arrange modules = arrange modules' := by
  have hbaseline : baselineIds modules = baselineIds modules' := baselineIds_congr keys
  have size : (ranked modules).size = (ranked modules').size := by
    simpa [baselineIds, ranked] using congrArg List.length hbaseline
  have hnames : ∀ p, (moduleAt (ranked modules) p).id =
      (moduleAt (ranked modules') (p.cast size)).id := by
    intro p
    have hget := getElem?_baselineIds p
    rw [hbaseline] at hget
    exact Option.some.inj (hget.symm.trans (getElem?_baselineIds (p.cast size)))
  rw [arrange_eq_named, arrange_eq_named]
  apply named_congr size (ascending_precedence _) (ascending_precedence _) hnames
  intro q p
  rw [← mustPrecede_iff_direct h.distinct_ranked, ← mustPrecede_iff_direct h'.distinct_ranked,
    mustPrecede_ranked, mustPrecede_ranked, ← hnames, ← hnames]
  exact same _ _

end Arrangement

/-! ## Redeclaring -/

/-- The source that answers from a function and has no effect. -/
def answering {σ : Type} (declares : ModuleId → Metadata) : Source σ where
  wasPrecomputed _ := false
  metadata id := return declares id

/-- The second module declares that it must follow the first. -/
def declareAfter (declares : ModuleId → Metadata) (a b : ModuleId) : ModuleId → Metadata :=
  Function.update declares b ((declares b).follow [a])

/-- The first module declares that it must precede the second. -/
def declareBefore (declares : ModuleId → Metadata) (a b : ModuleId) : ModuleId → Metadata :=
  Function.update declares a ((declares a).precede [b])

/-- One declaration more, of a constraint that the other side declares already or with a name
    that is no candidate. -/
inductive Redeclares (candidates : List ModuleId) (declares : ModuleId → Metadata) :
    (ModuleId → Metadata) → Prop
  | after {a b : ModuleId} (idle : b ∈ (declares a).before ∨ a ∉ candidates) :
      Redeclares candidates declares (declareAfter declares a b)
  | before {a b : ModuleId} (idle : a ∈ (declares b).after ∨ b ∉ candidates) :
      Redeclares candidates declares (declareBefore declares a b)

/-- Declarations that differ in what one side or the other declares, or not at all: what is
    declared twice may be retracted once. -/
abbrev Equivalent (candidates : List ModuleId) :
    (ModuleId → Metadata) → (ModuleId → Metadata) → Prop :=
  Relation.EqvGen (Redeclares candidates)

/-- The hints of modules are the same, and so are the constraints between candidates. -/
structure SameConstraints (candidates : List ModuleId) (declares declares' : ModuleId → Metadata) :
    Prop where
  hint : ∀ a, (declares a).order = (declares' a).order
  constraint : ∀ a ∈ candidates, ∀ b ∈ candidates,
    (a ∈ (declares b).after ∨ b ∈ (declares a).before) ↔
      (a ∈ (declares' b).after ∨ b ∈ (declares' a).before)

section Redeclaring

variable {σ : Type} {candidates ids : List ModuleId} {declares declares' : ModuleId → Metadata}
  {l : Ledger σ}

section Declarations

variable {a b c d : ModuleId}

@[simp] theorem order_declareAfter : (declareAfter declares a b c).order = (declares c).order := by
  simp only [declareAfter, Function.update_apply, Metadata.follow]
  split <;> simp [*]

@[simp] theorem order_declareBefore :
    (declareBefore declares a b c).order = (declares c).order := by
  simp only [declareBefore, Function.update_apply, Metadata.precede]
  split <;> simp [*]

@[simp] theorem mem_after_declareAfter :
    c ∈ (declareAfter declares a b d).after ↔ c ∈ (declares d).after ∨ c = a ∧ d = b := by
  simp only [declareAfter, Function.update_apply, Metadata.follow]
  split <;> simp [*, or_comm]

@[simp] theorem before_declareAfter :
    (declareAfter declares a b c).before = (declares c).before := by
  simp only [declareAfter, Function.update_apply, Metadata.follow]
  split <;> simp [*]

@[simp] theorem mem_before_declareBefore :
    d ∈ (declareBefore declares a b c).before ↔ d ∈ (declares c).before ∨ c = a ∧ d = b := by
  simp only [declareBefore, Function.update_apply, Metadata.precede]
  split <;> simp [*, or_comm]

@[simp] theorem after_declareBefore :
    (declareBefore declares a b c).after = (declares c).after := by
  simp only [declareBefore, Function.update_apply, Metadata.precede]
  split <;> simp [*]

/-- Declarations of one edge on both sides do not interfere. -/
theorem declareBefore_declareAfter :
    declareBefore (declareAfter declares a b) a b =
      declareAfter (declareBefore declares a b) a b := by
  funext c
  simp only [declareBefore, declareAfter, Function.update_apply, Metadata.follow, Metadata.precede]
  grind

end Declarations

/-- An edge that is declared on the other side, or on both, is the same constraint. -/
theorem Redeclares.sameConstraints (h : Redeclares candidates declares declares') :
    SameConstraints candidates declares declares' := by
  cases h with
  | after idle =>
    refine ⟨fun c => by simp, fun c hc d hd => ?_⟩
    simp only [mem_after_declareAfter, before_declareAfter]
    grind
  | before idle =>
    refine ⟨fun c => by simp, fun c hc d hd => ?_⟩
    simp only [mem_before_declareBefore, after_declareBefore]
    grind

/-- Redeclaring any number of edges keeps the constraints, one step at a time. -/
theorem Equivalent.sameConstraints (h : Equivalent candidates declares declares') :
    SameConstraints candidates declares declares' := by
  induction h with
  | rel _ _ h => exact h.sameConstraints
  | refl _ => exact ⟨fun _ => rfl, fun _ _ _ _ => Iff.rfl⟩
  | symm _ _ _ ih =>
    exact ⟨fun a => (ih.hint a).symm, fun a ha b hb => (ih.constraint a ha b hb).symm⟩
  | trans _ _ _ _ _ ih ih' =>
    exact ⟨fun a => (ih.hint a).trans (ih'.hint a),
      fun a ha b hb => (ih.constraint a ha b hb).trans (ih'.constraint a ha b hb)⟩

/-- A declaration may be moved from one side to the other: the sides meet where both declare. -/
theorem equivalent_of_moved (a b : ModuleId) :
    Equivalent candidates (declareAfter declares a b) (declareBefore declares a b) := by
  have hleft : Redeclares candidates (declareAfter declares a b)
      (declareBefore (declareAfter declares a b) a b) := .before (.inl (by simp))
  have hright : Redeclares candidates (declareBefore declares a b)
      (declareAfter (declareBefore declares a b) a b) := .after (.inl (by simp))
  rw [declareBefore_declareAfter] at hleft
  exact .trans _ _ _ (.rel _ _ hleft) (.symm _ _ (.rel _ _ hright))

/-- The modules of a list with what they declare. -/
def declaredBy (declares : ModuleId → Metadata) (ids : List ModuleId) : List Declared :=
  ids.map fun id => ⟨id, declares id⟩

theorem reads_answering (declares : ModuleId → Metadata) (ids : List ModuleId) (l : Ledger σ) :
    Reads (answering declares) ids l (declaredBy declares ids) l := by
  induction ids with
  | nil => exact .nil
  | cons id ids ih => exact .cons rfl ih

/-- Only declarations about listed modules constrain. -/
theorem mustPrecede_declaredBy {a b : ModuleId} :
    MustPrecede (declaredBy declares ids) a b ↔
      a ∈ ids ∧ b ∈ ids ∧ (a ∈ (declares b).after ∨ b ∈ (declares a).before) := by
  simp only [MustPrecede, declaredBy, List.mem_map]
  constructor
  · intro h
    obtain ⟨_, ⟨x, hx, rfl⟩, _, ⟨y, hy, rfl⟩, rfl, rfl, h⟩ := h
    exact ⟨hx, hy, h⟩
  · intro h
    obtain ⟨ha, hb, h⟩ := h
    exact ⟨_, ⟨a, ha, rfl⟩, _, ⟨b, hb, rfl⟩, rfl, rfl, h⟩

end Redeclaring

/-! ## Orders of redeclared candidates -/

section Orders

variable {σ σ' : Type} {source : Source σ} {source' : Source σ'} {candidates : List ModuleId}
  {l m : Ledger σ} {l' m' : Ledger σ'} {modules modules' : List Declared}

/-- Modules with the same names in the same places and the same hints have the same keys. -/
theorem map_key_congr (ids : modules.map (·.id) = modules'.map (·.id))
    (hints : ∀ d ∈ modules, ∀ d' ∈ modules', d.id = d'.id → d.metadata.order = d'.metadata.order) :
    modules.map Declared.key = modules'.map Declared.key := by
  induction modules generalizing modules' with
  | nil =>
    cases modules' with
    | nil => rfl
    | cons d' modules' => simp at ids
  | cons d modules ih =>
    cases modules' with
    | nil => simp at ids
    | cons d' modules' =>
      simp only [List.map_cons, List.cons.injEq] at ids
      have hkey : d.key = d'.key := by
        simp [Declared.key, ids.1, hints d (by simp) d' (by simp) ids.1]
      have hrest := ih ids.2 fun e he e' he' =>
        hints e (List.mem_cons_of_mem _ he) e' (List.mem_cons_of_mem _ he')
      rw [List.map_cons, List.map_cons, hkey, hrest]

/-- Sources that tell the same hints and lead to the same constraints order alike. -/
theorem order_congr (reads : Reads source (NameSet.ofList candidates).toList l modules m)
    (reads' : Reads source' (NameSet.ofList candidates).toList l' modules' m')
    (hints : ∀ d ∈ modules, ∀ d' ∈ modules', d.id = d'.id → d.metadata.order = d'.metadata.order)
    (same : ∀ a b, MustPrecede modules a b ↔ MustPrecede modules' a b) :
    ((order source candidates).exec l).1 = ((order source' candidates).exec l').1 := by
  have keys := map_key_congr (reads.map_id.trans reads'.map_id.symm) hints
  rw [exec_order_of_reads reads, exec_order_of_reads reads',
    arrange_congr reads.byName reads'.byName keys same]
  cases arrange modules' with
  | ok out => rfl
  | error conflict => rfl

/-- Equivalent declarations order alike, from whatever ledgers. -/
theorem order_answering_congr {declares declares' : ModuleId → Metadata}
    (equivalent : Equivalent candidates declares declares') (l : Ledger σ) (l' : Ledger σ') :
    ((order (answering declares) candidates).exec l).1 =
      ((order (answering declares') candidates).exec l').1 := by
  have same := equivalent.sameConstraints
  apply order_congr (reads_answering declares _ l) (reads_answering declares' _ l')
  · intro d hd d' hd' hid
    obtain ⟨id, -, rfl⟩ := List.mem_map.1 hd
    obtain ⟨id', -, rfl⟩ := List.mem_map.1 hd'
    cases hid
    exact same.hint id
  · intro a b
    simp only [mustPrecede_declaredBy, NameSet.mem_toList, NameSet.mem_ofList]
    grind [same.constraint]

end Orders

/-- Sources that give candidates the same hints and induce the same constraints between them
    order the candidates alike, or report the same conflict. So it does not matter which side
    declares a constraint, whether both do, and what is declared with other names than those of
    candidates. -/
theorem order_indifferent_to_side :
    (∀ {σ σ' : Type} {source : Source σ} {source' : Source σ'} {candidates : List ModuleId}
        {l m : Ledger σ} {l' m' : Ledger σ'} {modules modules' : List Declared},
        Reads source (NameSet.ofList candidates).toList l modules m →
        Reads source' (NameSet.ofList candidates).toList l' modules' m' →
        (∀ d ∈ modules, ∀ d' ∈ modules', d.id = d'.id → d.metadata.order = d'.metadata.order) →
        (∀ a b, MustPrecede modules a b ↔ MustPrecede modules' a b) →
        ((order source candidates).exec l).1 = ((order source' candidates).exec l').1) ∧
      (∀ {σ : Type} {candidates : List ModuleId} {declares declares' : ModuleId → Metadata}
        (l : Ledger σ), Equivalent candidates declares declares' →
        ((order (answering declares) candidates).exec l).1 =
          ((order (answering declares') candidates).exec l).1) ∧
      ∀ {σ : Type} (candidates : List ModuleId) (declares : ModuleId → Metadata) (a b : ModuleId)
        (l : Ledger σ),
        ((order (answering (declareAfter declares a b)) candidates).exec l).1 =
          ((order (answering (declareBefore declares a b)) candidates).exec l).1 := by
  refine ⟨order_congr, ?_, ?_⟩
  · intro σ candidates declares declares' l equivalent
    exact order_answering_congr equivalent l l
  · intro σ candidates declares a b l
    exact order_answering_congr (equivalent_of_moved a b) l l

/-- Three modules that must follow each other in a circle, as each of them declares or as the
    others declare. -/
theorem order_indifferent_to_side_of_circle :
    let declares : ModuleId → Metadata := fun id =>
      if id = "a" then { after := NameSet.ofList ["b", "x"] }
      else if id = "b" then { after := NameSet.ofList ["c"] }
      else { after := NameSet.ofList ["a"] }
    let declares' : ModuleId → Metadata := fun id =>
      if id = "a" then { before := NameSet.ofList ["c"] }
      else if id = "b" then { before := NameSet.ofList ["a"] }
      else { after := NameSet.ofList ["a"], before := NameSet.ofList ["b", "y"] }
    let candidates := ["c", "b", "a", "b"]
    let l : Ledger Unit := ⟨(), []⟩
    Reads (answering declares) (NameSet.ofList candidates).toList l
        (declaredBy declares ["a", "b", "c"]) l ∧
      Reads (answering declares') (NameSet.ofList candidates).toList l
        (declaredBy declares' ["a", "b", "c"]) l ∧
      (∀ d ∈ declaredBy declares ["a", "b", "c"],
        ∀ d' ∈ declaredBy declares' ["a", "b", "c"], d.id = d'.id →
          d.metadata.order = d'.metadata.order) ∧
      (∀ a b, MustPrecede (declaredBy declares ["a", "b", "c"]) a b ↔
        MustPrecede (declaredBy declares' ["a", "b", "c"]) a b) ∧
      ((order (answering declares) candidates).exec l).1 = .error (.cycleDetected "c" "a") ∧
      ((order (answering declares') candidates).exec l).1 = .error (.cycleDetected "c" "a") ∧
      Equivalent candidates (declareAfter declares "a" "b") (declareBefore declares "a" "b") ∧
      ((order (answering (declareAfter declares "a" "b")) candidates).exec l).1 =
        ((order (answering (declareBefore declares "a" "b")) candidates).exec l).1 := by
  intro declares declares' candidates l
  have hreads : Reads (answering declares) (NameSet.ofList candidates).toList l
      (declaredBy declares ["a", "b", "c"]) l := reads_answering declares _ l
  have hreads' : Reads (answering declares') (NameSet.ofList candidates).toList l
      (declaredBy declares' ["a", "b", "c"]) l := reads_answering declares' _ l
  have hsame : ∀ a b, MustPrecede (declaredBy declares ["a", "b", "c"]) a b ↔
      MustPrecede (declaredBy declares' ["a", "b", "c"]) a b := by
    intro a b
    simp only [mustPrecede_declaredBy, declares, declares']
    grind [NameSet.mem_ofList, NameSet.not_mem_empty]
  have hints : ∀ d ∈ declaredBy declares ["a", "b", "c"],
      ∀ d' ∈ declaredBy declares' ["a", "b", "c"], d.id = d'.id →
        d.metadata.order = d'.metadata.order := by
    simp only [declares, declares', declaredBy]
    decide
  have hcycle : ((order (answering declares) candidates).exec l).1 =
      .error (.cycleDetected "c" "a") := by
    simp only [declares, candidates, l]
    cbv
  have hequivalent : Equivalent candidates (declareAfter declares "a" "b")
      (declareBefore declares "a" "b") := equivalent_of_moved "a" "b"
  refine ⟨hreads, hreads', hints, hsame, hcycle, ?_, hequivalent, ?_⟩
  · rw [← order_indifferent_to_side.1 hreads hreads' hints hsame]
    exact hcycle
  · exact order_indifferent_to_side.2.1 l hequivalent

end Activation.Order
