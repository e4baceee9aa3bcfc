-- SUMMARY: Keeping a history changes nothing, and what a run enters into it.
import Activation.History
import Activation.Proofs.InTurn

/-!
# Histories

`Records` says that a run over collaborators that keep a history does what another does over
the collaborators as they are, and what it enters into the history. Entries of a composed run
are those of its parts, up to the part that fails, and a loop enters one question for each
collaborator that it asks.
-/

namespace Activation

variable {σ ε ε' α β γ γ' : Type}

/-! ## Histories end to end -/

namespace History

instance : EmptyCollection History := ⟨{}⟩

/-- The questions of one history, and after them those of another. -/
instance : Append History where
  append g h :=
    { inspected := g.inspected ++ h.inspected
      batches := g.batches ++ h.batches
      notices := g.notices ++ h.notices }

variable {f g h : History}

@[simp] theorem inspected_append : (g ++ h).inspected = g.inspected ++ h.inspected := rfl

@[simp] theorem batches_append : (g ++ h).batches = g.batches ++ h.batches := rfl

@[simp] theorem notices_append : (g ++ h).notices = g.notices ++ h.notices := rfl

@[simp] theorem append_empty : h ++ (∅ : History) = h := by
  obtain ⟨inspected, batches, notices⟩ := h
  show History.mk (inspected ++ []) (batches ++ []) (notices ++ []) = _
  simp only [List.append_nil]

@[simp] theorem empty_append : (∅ : History) ++ h = h := rfl

section Lists

variable (xs : List α)

theorem mapIdx_const (f : α → β) : (xs.mapIdx fun _ x => f x) = xs.map f := by
  induction xs with
  | nil => rfl
  | cons x xs ih => rw [List.mapIdx_cons, ih, List.map_cons]

theorem mapIdx_place (f : Nat → β) :
    (xs.mapIdx fun place _ => f place) = (List.range xs.length).map f :=
  List.ext_getElem (by simp) (by simp)

/-- Places are counted through the whole list, not through its parts. -/
theorem flatten_mapIdx_singleton (f : Nat → α → β) :
    (xs.mapIdx fun i x => [f i x]).flatten = xs.mapIdx f := by
  induction xs generalizing f with
  | nil => rfl
  | cons x xs ih =>
    rw [List.mapIdx_cons, List.mapIdx_cons, List.flatten_cons, ih, List.singleton_append]

theorem flatten_map_unless (p : α → Bool) :
    (xs.map fun x => if p x then [] else [x]).flatten = xs.filter fun x => !p x := by
  induction xs with
  | nil => rfl
  | cons x xs ih =>
    rw [List.map_cons, List.flatten_cons, ih, List.filter_cons]
    cases p x with
    | true => rfl
    | false => rfl

end Lists

/-- Entries of one kind: lists of them, one after the other, are entered as one list. -/
structure Additive (lift : List α → History) : Prop where
  empty : lift [] = ∅
  append : ∀ as bs, lift (as ++ bs) = lift as ++ lift bs

theorem additive_inspected : Additive fun ids => { inspected := ids } := ⟨rfl, fun _ _ => rfl⟩

theorem additive_batches : Additive fun batches => { batches } := ⟨rfl, fun _ _ => rfl⟩

theorem additive_notices : Additive fun notices => { notices } := ⟨rfl, fun _ _ => rfl⟩

theorem append_assoc : f ++ g ++ h = f ++ (g ++ h) := by
  show History.mk _ _ _ = History.mk _ _ _
  simp only [inspected_append, batches_append, notices_append, List.append_assoc]

end History

/-! ## Runs that keep a history -/

namespace Run

/-- A run does what another does, and it makes entries in the history. -/
def Records (watched : Run (σ × History) ε α) (plain : Run σ ε α)
    (entries : Ledger σ → History) : Prop :=
  ∀ l h, watched.exec (l.beside h) = ((plain.exec l).1, (plain.exec l).2.beside (h ++ entries l))

/-- The entries of a run that goes on from the result of another, if there is one. -/
def entriesAfter (x : Run σ ε α) (entries : α → Ledger σ → History) (l : Ledger σ) : History :=
  match x.exec l with
  | (.ok a, k) => entries a k
  | (.error _, _) => ∅

variable {x : Run σ ε α} {x' : Run (σ × History) ε α} {d : Ledger σ → History}

/-- A second run starts where the first one ends, so it adds its entries only if the first
    succeeds. -/
theorem Records.bind {f : α → Run σ ε β} {f' : α → Run (σ × History) ε β}
    {e : α → Ledger σ → History} (h : Records x' x d) (next : ∀ a, Records (f' a) (f a) (e a)) :
    Records (x' >>= f') (x >>= f) fun l => d l ++ entriesAfter x e l := by
  intro l g
  rw [exec_bind, exec_bind, h l g]
  rcases hx : x.exec l with ⟨failure | a, k⟩
  · simp only [entriesAfter, hx, History.append_empty]
  · simp only [entriesAfter, hx, next a k, History.append_assoc]

/-- Nothing is entered by a run that does not touch the history. -/
abbrev Silent (x' : Run (σ × History) ε α) (x : Run σ ε α) : Prop := Records x' x fun _ => ∅

theorem Records.congr {e : Ledger σ → History} (h : Records x' x d) (heq : ∀ l, d l = e l) :
    Records x' x e := by
  intro l g
  rw [h l g, heq l]

theorem Silent.pure (a : α) : Silent (pure a : Run (σ × History) ε α) (pure a) := by
  intro l h
  simp

theorem Silent.throw (e : ε) : Silent (throw e : Run (σ × History) ε α) (throw e) := by
  intro l h
  simp

theorem Silent.ofExcept (result : Except ε α) :
    Silent (ofExcept result : Run (σ × History) ε α) (ofExcept result) := by
  intro l h
  simp

theorem Silent.report (events : List Event) :
    Silent (report events : Run (σ × History) ε Unit) (report events) := by
  intro l h
  rw [History.append_empty]
  rfl

theorem Silent.onFirst (x : Run σ ε α) : Silent (Run.onFirst x) x := by
  intro l h
  rw [exec_onFirst, History.append_empty]

/-- An entry is written before the run it is about, whether that fails or not. -/
theorem exec_enter_bind (change : History → History) (x : Run σ ε α) (l : Ledger (σ × History)) :
    (do History.enter change; Run.onFirst x).exec l =
      (Run.onFirst x).exec (l.first.beside (change l.world.2)) := by
  rw [exec_bind]
  rfl

/-- An entry is made, and then a collaborator does what it always did. -/
theorem Records.enter {change : History → History} {entry : History}
    (h : ∀ g, change g = g ++ entry) (x : Run σ ε α) :
    Records (do History.enter change; Run.onFirst x) x fun _ => entry := by
  intro l g
  rw [exec_enter_bind, exec_onFirst, ← h g]
  rfl

theorem Records.mapFailure (f : ε → ε') (h : Records x' x d) :
    Records (x'.mapFailure f) (x.mapFailure f) d := by
  intro l g
  rw [exec_mapFailure, exec_mapFailure, h l g]

/-- A silent beginning. -/
theorem Silent.bind {f : α → Run σ ε β} {f' : α → Run (σ × History) ε β}
    {e : α → Ledger σ → History} (h : Silent x' x) (next : ∀ a, Records (f' a) (f a) (e a)) :
    Records (x' >>= f') (x >>= f) (entriesAfter x e) :=
  (Records.bind h next).congr fun _ => History.empty_append

/-- A silent end. -/
theorem Records.bind_silent {f : α → Run σ ε β} {f' : α → Run (σ × History) ε β}
    (h : Records x' x d) (next : ∀ a, Silent (f' a) (f a)) : Records (x' >>= f') (x >>= f) d := by
  refine (Records.bind h next).congr fun l => ?_
  unfold entriesAfter
  rcases x.exec l with ⟨e | a, k⟩
  · exact History.append_empty
  · exact History.append_empty

/-- Questions to a list of collaborators are entered up to the first failure. -/
theorem Records.mapM {ask : γ → Run σ ε α} {ask' : γ' → Run (σ × History) ε α}
    {lift : List β → History} (additive : History.Additive lift) (watch : Nat → γ → γ')
    (entry : Nat → γ → List β)
    (h : ∀ i x, Records (ask' (watch i x)) (ask x) fun _ => lift (entry i x)) (xs : List γ) :
    Records ((xs.mapIdx watch).mapM ask') (xs.mapM ask) fun l =>
      lift ((asked ask xs l).mapIdx entry).flatten := by
  induction xs generalizing watch entry with
  | nil => exact (Silent.pure []).congr fun _ => additive.empty.symm
  | cons x xs ih =>
    rw [List.mapIdx_cons, List.mapM_cons, List.mapM_cons]
    have hrest := ih (fun i => watch (i + 1)) (fun i => entry (i + 1)) fun i => h (i + 1)
    have hcons := (h 0 x).bind fun a => hrest.bind_silent fun as => Silent.pure (a :: as)
    refine hcons.congr fun l => ?_
    rw [asked]
    unfold entriesAfter
    rcases (ask x).exec l with ⟨e | a, k⟩
    · rw [List.mapIdx_cons, List.flatten_cons, additive.append]
      exact congrArg _ additive.empty.symm
    · rw [List.mapIdx_cons, List.flatten_cons, additive.append]

end Run

end Activation
