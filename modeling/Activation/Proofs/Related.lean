-- SUMMARY: Two runs that do the same from related states of the collaborators.
import Activation.Proofs.InTurn
import Mathlib.Data.List.Forall2

/-!
# Related runs

Two runs are related when from related states of the collaborators they fail alike or give
related results, and leave related states. The logs do not matter, neither those from which
the runs start nor what they write. A run that is related to itself depends on the state
only as far as the relation tells states apart: for equality, it does not read the log, and
for the relation that always holds, its answer is always the same.
-/

namespace Activation.Run

variable {σ ε ε' α β α' β' γ : Type} {W : σ → σ → Prop} {R : α → β → Prop} {S : α' → β' → Prop}

/-- Both fail with the same failure, or both give a result and the results are related. -/
inductive Agree (R : α → β → Prop) : Except ε α → Except ε β → Prop
  | ok {a : α} {b : β} (related : R a b) : Agree R (.ok a) (.ok b)
  | error {e : ε} : Agree R (.error e) (.error e)

theorem Agree.eq {a b : Except ε α} (h : Agree Eq a b) : a = b := by
  cases h with
  | ok related => rw [related]
  | error => rfl

theorem Agree.of_eq {a b : Except ε α} (h : a = b) : Agree Eq a b := by
  subst h
  cases a with
  | ok a => exact .ok rfl
  | error e => exact .error

theorem Agree.imp {R' : α → β → Prop} {a : Except ε α} {b : Except ε β}
    (imp : ∀ a b, R a b → R' a b) (h : Agree R a b) : Agree R' a b := by
  cases h with
  | ok related => exact .ok (imp _ _ related)
  | error => exact .error

theorem Agree.mapError {a : Except ε α} {b : Except ε β} (h : Agree R a b) (f : ε → ε') :
    Agree R (a.mapError f) (b.mapError f) := by
  cases h with
  | ok related => exact .ok related
  | error => exact .error

theorem Agree.map {a : Except ε α} {b : Except ε β} {f : α → α'} {g : β → β'} (h : Agree R a b)
    (imp : ∀ x y, R x y → S (f x) (g y)) : Agree S (a.map f) (b.map g) := by
  cases h with
  | ok related => exact .ok (imp _ _ related)
  | error => exact .error

/-- What follows a success has to agree only for results that are related. -/
theorem Agree.bind_of_ok {a : Except ε α} {b : Except ε β} {f : α → Except ε α'}
    {g : β → Except ε β'} (h : Agree R a b)
    (next : ∀ x y, a = .ok x → R x y → Agree S (f x) (g y)) : Agree S (a >>= f) (b >>= g) := by
  cases h with
  | ok related => exact next _ _ rfl related
  | error => exact .error

theorem Agree.bind {a : Except ε α} {b : Except ε β} {f : α → Except ε α'} {g : β → Except ε β'}
    (h : Agree R a b) (next : ∀ x y, R x y → Agree S (f x) (g y)) :
    Agree S (a >>= f) (b >>= g) :=
  h.bind_of_ok fun x y _ => next x y

/-- If each question agrees, the first one that fails is the same, and the answers are related in
    their places. -/
theorem Agree.mapM {f : γ → Except ε α} {g : γ → Except ε β} (h : ∀ x, Agree R (f x) (g x))
    (xs : List γ) : Agree (List.Forall₂ R) (xs.mapM f) (xs.mapM g) := by
  induction xs with
  | nil => exact .ok .nil
  | cons x xs ih =>
    rw [List.mapM_cons, List.mapM_cons]
    refine (h x).bind fun a b related => ih.bind fun as bs all => ?_
    exact .ok (.cons related all)

/-- The ends of two runs agree, and the states that are left are related. -/
structure EndAlike (W : σ → σ → Prop) (R : α → β → Prop) (x : Except ε α × Ledger σ)
    (y : Except ε β × Ledger σ) : Prop where
  agree : Agree R x.1 y.1
  world : W x.2.world y.2.world

/-- From related states, whatever the logs, two runs end alike. -/
def Related (W : σ → σ → Prop) (R : α → β → Prop) (x : Run σ ε α) (y : Run σ ε β) : Prop :=
  ∀ l l' : Ledger σ, W l.world l'.world → EndAlike W R (x.exec l) (y.exec l')

/-- What a run answers and what it leaves depend on the state only as far as it is told apart. -/
abbrev Respects (W : σ → σ → Prop) (x : Run σ ε α) : Prop := Related W Eq x x

/-! ## Composition -/

/-- Runs that end alike hand related results and related states on. -/
theorem EndAlike.bind {x : Run σ ε α} {y : Run σ ε β} {f : α → Run σ ε α'} {g : β → Run σ ε β'}
    {l l' : Ledger σ} (h : EndAlike W R (x.exec l) (y.exec l'))
    (next : ∀ a b, R a b → Related W S (f a) (g b)) :
    EndAlike W S ((x >>= f).exec l) ((y >>= g).exec l') := by
  obtain ⟨agree, world⟩ := h
  rw [exec_bind, exec_bind]
  rcases hx : x.exec l with ⟨rx, k⟩
  rcases hy : y.exec l' with ⟨ry, k'⟩
  rw [hx, hy] at agree world
  cases agree with
  | ok related => exact next _ _ related k k' world
  | error => exact ⟨.error, world⟩

theorem Related.bind {x : Run σ ε α} {y : Run σ ε β} {f : α → Run σ ε α'} {g : β → Run σ ε β'}
    (h : Related W R x y) (next : ∀ a b, R a b → Related W S (f a) (g b)) :
    Related W S (x >>= f) (y >>= g) :=
  fun l l' world => (h l l' world).bind next

theorem Related.pure {a : α} {b : β} (h : R a b) :
    Related W R (pure a : Run σ ε α) (pure b) :=
  fun _ _ world => ⟨.ok h, world⟩

theorem Related.throw (e : ε) : Related W R (throw e : Run σ ε α) (throw e) :=
  fun _ _ world => ⟨.error, world⟩

theorem Related.ofExcept (result : Except ε α) : Respects W (ofExcept result : Run σ ε α) :=
  fun _ _ world => ⟨.of_eq rfl, world⟩

/-- What is written to the log does not matter. -/
theorem Related.report (events events' : List Event) :
    Related W Eq (report events : Run σ ε Unit) (report events') :=
  fun _ _ world => ⟨.ok rfl, world⟩

theorem Related.mapFailure {x : Run σ ε α} {y : Run σ ε β} (f : ε → ε') (h : Related W R x y) :
    Related W R (x.mapFailure f) (y.mapFailure f) := by
  intro l l' world
  obtain ⟨agree, world⟩ := h l l' world
  exact ⟨agree.mapError f, world⟩

/-- Loops are related if the same is asked of each. -/
theorem Related.mapM {ask ask' : γ → Run σ ε α} {xs : List γ}
    (h : ∀ x ∈ xs, Related W Eq (ask x) (ask' x)) :
    Related W Eq (xs.mapM ask) (xs.mapM ask') := by
  induction xs with
  | nil => exact .pure rfl
  | cons x xs ih =>
    rw [List.mapM_cons, List.mapM_cons]
    refine (h x List.mem_cons_self).bind fun a a' heq => ?_
    refine (ih fun y hy => h y (List.mem_cons_of_mem _ hy)).bind fun as as' heqs => ?_
    subst heq heqs
    exact .pure rfl

/-- Those that always give the same answer and have no effect may be left out: of the answers of
    all, theirs are missing and no others. -/
theorem agree_mapM_filter {ask : γ → Run σ ε α} {answer : γ → α} {steady : γ → Bool} {xs : List γ}
    (h : ∀ x ∈ xs, steady x = true → ∀ l, (ask x).exec l = (.ok (answer x), l)) (l : Ledger σ) :
    Agree (fun as as' => ∀ a, a ∈ as ↔ a ∈ as' ∨ ∃ x ∈ xs, steady x = true ∧ answer x = a)
      ((xs.mapM ask).exec l).1 (((xs.filter fun x => !steady x).mapM ask).exec l).1 := by
  induction xs generalizing l with
  | nil => exact .ok (by simp)
  | cons x xs ih =>
    replace ih := ih fun y hy => h y (List.mem_cons_of_mem x hy)
    rw [List.mapM_cons, exec_bind, List.filter_cons]
    cases hsteady : steady x with
    | true =>
      have hrest := ih l
      simp only [h x List.mem_cons_self hsteady l, exec_map, Bool.not_true, Bool.false_eq_true,
        if_false]
      generalize ((xs.mapM ask).exec l).1 = all at hrest ⊢
      generalize (((xs.filter fun x => !steady x).mapM ask).exec l).1 = others at hrest ⊢
      cases hrest with
      | error => exact .error
      | ok related =>
        refine .ok fun a => ?_
        simp [related, hsteady, or_left_comm, @eq_comm _ a]
    | false =>
      simp only [Bool.not_false, if_true, List.mapM_cons, exec_bind (ask x)]
      rcases (ask x).exec l with ⟨_ | b, k⟩
      · exact .error
      · dsimp only
        rw [exec_map, exec_map]
        refine (ih k).map fun as as' related => ?_
        intro a
        simp [related, hsteady, or_assoc]

end Activation.Run
