-- SUMMARY: What it means that a composed run succeeds or fails.
import Activation.Run

/-!
# How runs end

A composed run succeeds when its parts do, one from the ledger that the other left, and it
fails where the first of its parts fails. With these lemmas the end of a run is taken apart
into what its steps did.
-/

namespace Activation

variable {σ τ : Type}

/-! ## Ledgers -/

namespace Ledger

/-- A ledger with further events in its log. -/
def logged (l : Ledger σ) (events : List Event) : Ledger σ := { l with log := l.log ++ events }

/-- A ledger with a second part of the state. -/
def beside (l : Ledger σ) (t : τ) : Ledger (σ × τ) := ⟨(l.world, t), l.log⟩

/-- A ledger without the second part of the state. -/
def first (l : Ledger (σ × τ)) : Ledger σ := ⟨l.world.1, l.log⟩

variable {l : Ledger σ} {t : τ} {events later : List Event}

@[simp] theorem world_logged : (l.logged events).world = l.world := rfl

@[simp] theorem log_logged : (l.logged events).log = l.log ++ events := rfl

@[simp] theorem logged_nil : l.logged [] = l := by
  simp [logged]

@[simp] theorem logged_logged : (l.logged events).logged later = l.logged (events ++ later) := by
  simp [logged]

@[simp] theorem world_beside : (l.beside t).world = (l.world, t) := rfl

@[simp] theorem first_beside : (l.beside t).first = l := rfl

@[simp] theorem beside_logged : (l.beside t).logged events = (l.logged events).beside t := rfl

end Ledger

namespace Run

variable {ε ε' α β : Type}

theorem exec_onFirst (run : Run σ ε α) (l : Ledger σ) (t : τ) :
    (onFirst run).exec (l.beside t) = ((run.exec l).1, (run.exec l).2.beside t) :=
  rfl

theorem exec_withLocal (start : τ) (run : Run (σ × τ) ε α) (l : Ledger σ) :
    (withLocal start run).exec l =
      ((run.exec (l.beside start)).1.map fun a => (a, (run.exec (l.beside start)).2.world.2),
        (run.exec (l.beside start)).2.first) :=
  rfl

theorem exec_report_bind (events : List Event) (f : Unit → Run σ ε α) (l : Ledger σ) :
    (report events >>= f).exec l = (f ()).exec (l.logged events) := by
  rw [exec_bind, exec_report]
  rfl

/-! ## Success and failure -/

/-- Runs in a row succeed if both do, the second from where the first one ended. -/
theorem exec_bind_eq_ok_iff {x : Run σ ε α} {f : α → Run σ ε β} {l m : Ledger σ} {b : β} :
    (x >>= f).exec l = (.ok b, m) ↔
      ∃ a k, x.exec l = (.ok a, k) ∧ (f a).exec k = (.ok b, m) := by
  rw [exec_bind]
  rcases x.exec l with ⟨_ | a, k⟩
  · simp
  · constructor
    · intro h
      exact ⟨a, k, rfl, h⟩
    · rintro ⟨_, _, ⟨rfl, rfl⟩, h⟩
      exact h

/-- Runs in a row fail as the first one, or as the second after the first one succeeded. -/
theorem exec_bind_eq_error_iff {x : Run σ ε α} {f : α → Run σ ε β} {l m : Ledger σ} {e : ε} :
    (x >>= f).exec l = (.error e, m) ↔
      x.exec l = (.error e, m) ∨
        ∃ a k, x.exec l = (.ok a, k) ∧ (f a).exec k = (.error e, m) := by
  rw [exec_bind]
  rcases x.exec l with ⟨_ | a, k⟩
  · simp
  · constructor
    · intro h
      exact .inr ⟨a, k, rfl, h⟩
    · rintro (h | ⟨_, _, ⟨rfl, rfl⟩, h⟩)
      · cases h
      · exact h

theorem exec_get (l : Ledger σ) : (get : Run σ ε (Ledger σ)).exec l = (.ok l, l) :=
  rfl

theorem exec_map (x : Run σ ε α) (f : α → β) (l : Ledger σ) :
    (do let a ← x; return f a : Run σ ε β).exec l = ((x.exec l).1.map f, (x.exec l).2) := by
  rw [exec_bind]
  rcases x.exec l with ⟨_ | a, k⟩
  · rfl
  · rfl

/-- Runs may go on differently where nothing goes on. -/
theorem bind_congr_ok {x : Run σ ε α} {f g : α → Run σ ε β}
    (h : ∀ l a k, x.exec l = (.ok a, k) → (f a).exec k = (g a).exec k) : x >>= f = x >>= g := by
  apply ext_exec
  intro l
  rw [exec_bind, exec_bind]
  rcases hx : x.exec l with ⟨_ | a, k⟩
  · rfl
  · exact h l a k hx

theorem exec_mapFailure_eq_ok_iff {x : Run σ ε α} {f : ε → ε'} {l m : Ledger σ} {a : α} :
    (x.mapFailure f).exec l = (.ok a, m) ↔ x.exec l = (.ok a, m) := by
  rw [exec_mapFailure]
  rcases x.exec l with ⟨e | b, k⟩
  · constructor
    · intro h
      cases h
    · intro h
      cases h
  · constructor
    · intro h
      cases h
      rfl
    · intro h
      cases h
      rfl

/-- A failure is only told in another way. -/
theorem exec_mapFailure_eq_error_iff {x : Run σ ε α} {f : ε → ε'} {l m : Ledger σ} {e : ε'} :
    (x.mapFailure f).exec l = (.error e, m) ↔
      ∃ failure, x.exec l = (.error failure, m) ∧ e = f failure := by
  rw [exec_mapFailure]
  rcases x.exec l with ⟨failure | b, k⟩
  · constructor
    · intro h
      cases h
      exact ⟨failure, rfl, rfl⟩
    · rintro ⟨_, ⟨rfl, rfl⟩, rfl⟩
      rfl
  · constructor
    · intro h
      cases h
    · rintro ⟨_, h, _⟩
      cases h

/-- A run with a local state begins with its start and gives it back at the end. -/
theorem exec_withLocal_eq_ok_iff {x : Run (σ × τ) ε α} {start t : τ} {l m : Ledger σ} {a : α} :
    (withLocal start x).exec l = (.ok (a, t), m) ↔
      ∃ k, x.exec ⟨(l.world, start), l.log⟩ = (.ok a, k) ∧ k.world.2 = t ∧
        m = ⟨k.world.1, k.log⟩ := by
  rw [withLocal, exec_ofFunction]
  rcases x.exec ⟨(l.world, start), l.log⟩ with ⟨_ | b, k⟩
  · simp [Except.map]
  · simp only [Except.map, Prod.mk.injEq, Except.ok.injEq]
    constructor
    · rintro ⟨⟨rfl, rfl⟩, rfl⟩
      exact ⟨k, ⟨rfl, rfl⟩, rfl, rfl⟩
    · rintro ⟨k', ⟨rfl, rfl⟩, rfl, rfl⟩
      exact ⟨⟨rfl, rfl⟩, rfl⟩

end Run

end Activation
