-- SUMMARY: Asking one after the other until one fails.
import Activation.Proofs.Runs

/-!
# Asking in turn

Collaborators are asked one after the other, each from the ledger that the one before left,
and the first failure ends it. `Answered` says that all of them answered, and `Turn` that it
is some collaborator's turn because all before it answered. A loop over a list succeeds
exactly in the first case, and it fails exactly when somebody fails whose turn it is.
-/

namespace Activation.Run

variable {σ ε α β γ : Type} {ask : α → Run σ ε β} {x y : α} {xs : List α} {b : β} {bs : List β}
  {e : ε} {l k m : Ledger σ}

/-- All are asked, one after the other, and all answer. -/
inductive Answered (ask : α → Run σ ε β) : List α → Ledger σ → List β → Ledger σ → Prop
  | nil {l : Ledger σ} : Answered ask [] l [] l
  | cons {x : α} {xs : List α} {b : β} {bs : List β} {l k m : Ledger σ}
      (answer : (ask x).exec l = (.ok b, k)) (rest : Answered ask xs k bs m) :
      Answered ask (x :: xs) l (b :: bs) m

/-- It is somebody's turn: all before it were asked, one after the other, and answered. The
    last ledger is the one that they left. -/
inductive Turn (ask : α → Run σ ε β) : List α → Ledger σ → α → Ledger σ → Prop
  | first {x : α} {xs : List α} {l : Ledger σ} : Turn ask (x :: xs) l x l
  | later {x y : α} {xs : List α} {b : β} {l k m : Ledger σ}
      (answer : (ask x).exec l = (.ok b, k)) (rest : Turn ask xs k y m) :
      Turn ask (x :: xs) l y m

/-- The ones that are asked when nobody is asked after a failure. -/
def asked (ask : α → Run σ ε β) : List α → Ledger σ → List α
  | [], _ => []
  | x :: xs, l =>
    match (ask x).exec l with
    | (.ok _, k) => x :: asked ask xs k
    | (.error _, _) => [x]

/-- Whose turn it is depends only on what the others leave when they answer. -/
theorem Turn.imp {ε' : Type} {ask' : α → Run σ ε' γ}
    (h : ∀ x l b k, (ask x).exec l = (.ok b, k) → ∃ c, (ask' x).exec l = (.ok c, k))
    (turn : Turn ask xs l x k) : Turn ask' xs l x k := by
  induction turn with
  | first => exact .first
  | later answer _ ih =>
    obtain ⟨c, hc⟩ := h _ _ _ _ answer
    exact .later hc ih

theorem Answered.imp {ε' : Type} {ask' : α → Run σ ε' β}
    (h : ∀ x l b k, (ask x).exec l = (.ok b, k) → (ask' x).exec l = (.ok b, k))
    (answered : Answered ask xs l bs m) : Answered ask' xs l bs m := by
  induction answered with
  | nil => exact .nil
  | cons answer _ ih => exact .cons (h _ _ _ _ answer) ih

/-- It is the turn of the first one after some that answered. -/
theorem turn_iff :
    Turn ask xs l x k ↔
      ∃ before after bs, xs = before ++ x :: after ∧ Answered ask before l bs k := by
  constructor
  · intro turn
    induction turn with
    | first => exact ⟨[], _, [], rfl, .nil⟩
    | later answer _ ih =>
      obtain ⟨before, after, bs, rfl, answered⟩ := ih
      exact ⟨_ :: before, after, _ :: bs, rfl, .cons answer answered⟩
  · intro h
    obtain ⟨before, after, bs, rfl, answered⟩ := h
    induction answered with
    | nil => exact .first
    | cons answer _ ih => exact .later answer ih

/-- After some that answered, the others are asked. -/
theorem Answered.asked_append {before : List α} (answered : Answered ask before l bs k)
    (rest : List α) : asked ask (before ++ rest) l = before ++ asked ask rest k := by
  induction answered with
  | nil => rfl
  | cons answer _ ih => simp only [List.cons_append, asked, answer, ih]

/-- All are asked if all answer. -/
theorem asked_eq_self (h : ∀ x ∈ xs, ∀ l, ∃ b, ((ask x).exec l).1 = .ok b) :
    asked ask xs l = xs := by
  induction xs generalizing l with
  | nil => rfl
  | cons x xs ih =>
    obtain ⟨b, hb⟩ := h x List.mem_cons_self l
    obtain ⟨k, hk⟩ : ∃ k, (ask x).exec l = (.ok b, k) := ⟨_, Prod.ext hb rfl⟩
    simp only [asked, hk, ih fun y hy => h y (List.mem_cons_of_mem x hy)]

/-- Those that always answer do not show in which of the others are asked. -/
theorem filter_asked {ε' : Type} {ask' : α → Run σ ε' γ} {skip : α → Bool}
    (skipped : ∀ x l, skip x = true → ∃ b, ((ask x).exec l).1 = .ok b)
    (alike : ∀ x l l', skip x = false →
      ((∃ b, ((ask x).exec l).1 = .ok b) ↔ ∃ c, ((ask' x).exec l').1 = .ok c)) (l' : Ledger σ) :
    (asked ask xs l).filter (fun x => !skip x) =
      asked ask' (xs.filter fun x => !skip x) l' := by
  induction xs generalizing l l' with
  | nil => rfl
  | cons x xs ih =>
    have hask := skipped x l
    have halike := alike x l l'
    cases hskip : skip x with
    | true =>
      obtain ⟨b, hb⟩ := hask hskip
      obtain ⟨k, hk⟩ : ∃ k, (ask x).exec l = (.ok b, k) := ⟨_, Prod.ext hb rfl⟩
      simp [asked, hk, hskip, ih l']
    | false =>
      replace halike := halike hskip
      rcases hx : (ask x).exec l with ⟨e | b, k⟩
      · rcases hx' : (ask' x).exec l' with ⟨e' | c, k'⟩
        · simp [asked, hx, hx', hskip]
        · simp [hx, hx'] at halike
      · rcases hx' : (ask' x).exec l' with ⟨e' | c, k'⟩
        · simp [hx, hx'] at halike
        · simp [asked, hx, hx', hskip, ih k']

/-! ## Loops -/

/-- A loop over collaborators succeeds exactly if each answers in its turn. -/
theorem exec_mapM_eq_ok_iff :
    (xs.mapM ask).exec l = (.ok bs, m) ↔ Answered ask xs l bs m := by
  induction xs generalizing l bs with
  | nil =>
    simp only [List.mapM_nil, exec_pure, Prod.mk.injEq, Except.ok.injEq]
    constructor
    · rintro ⟨rfl, rfl⟩
      exact .nil
    · intro h
      cases h
      exact ⟨rfl, rfl⟩
  | cons x xs ih =>
    simp only [List.mapM_cons, exec_bind_eq_ok_iff, exec_pure, Prod.mk.injEq, Except.ok.injEq]
    constructor
    · rintro ⟨b, k, answer, bs, k', hrest, rfl, rfl⟩
      exact .cons answer (ih.1 hrest)
    · intro h
      cases h with
      | cons answer rest => exact ⟨_, _, answer, _, _, ih.2 rest, rfl, rfl⟩

/-- A loop over collaborators fails exactly as the first that fails, after those before it
    answered. -/
theorem exec_mapM_eq_error_iff :
    (xs.mapM ask).exec l = (.error e, m) ↔
      ∃ x k, Turn ask xs l x k ∧ (ask x).exec k = (.error e, m) := by
  induction xs generalizing l with
  | nil =>
    constructor
    · intro h
      cases h
    · rintro ⟨x, k, turn, -⟩
      cases turn
  | cons x xs ih =>
    simp only [List.mapM_cons, exec_bind_eq_error_iff, exec_pure, ih]
    constructor
    · rintro (failure | ⟨b, k, answer, ⟨y, k', turn, failure⟩ | ⟨_, _, _, h⟩⟩)
      · exact ⟨x, l, .first, failure⟩
      · exact ⟨y, k', .later answer turn, failure⟩
      · cases h
    · rintro ⟨y, k, turn, failure⟩
      cases turn with
      | first => exact .inl failure
      | later answer turn => exact .inr ⟨_, _, answer, .inl ⟨y, k, turn, failure⟩⟩

/-- A fold that only combines answers asks first and combines afterwards. -/
theorem foldlM_eq_mapM_bind (f : γ → β → γ) (c : γ) :
    xs.foldlM (fun c x => do return f c (← ask x)) c =
      (do return (← xs.mapM ask).foldl f c : Run σ ε γ) := by
  induction xs generalizing c with
  | nil => rw [List.foldlM_nil, List.mapM_nil, pure_bind, List.foldl_nil]
  | cons x xs ih =>
    simp only [List.foldlM_cons, List.mapM_cons, bind_assoc, pure_bind, List.foldl_cons, ih]

theorem forM_eq_mapM_bind {ask : α → Run σ ε Unit} :
    xs.forM ask = (do let _ ← xs.mapM ask; return () : Run σ ε Unit) := by
  rw [List.forM_eq_forM]
  induction xs with
  | nil => rw [List.mapM_nil, pure_bind, List.forM_nil]
  | cons x xs ih => simp only [List.forM_cons, List.mapM_cons, bind_assoc, pure_bind, ih]

end Activation.Run
