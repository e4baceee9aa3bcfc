-- SUMMARY: Order hints, the priorities of modules.

/-!
# Order hints

A hint is an integer of 32 bits; modules with lower hints come first. `ofInt?` takes
exactly the integers in range, so a hint never wraps around.
-/

namespace Activation

/-- A priority: a signed 32-bit integer, lower ones first. -/
structure OrderHint where
  toInt : Int
  lower : -2147483648 ≤ toInt := by decide
  upper : toInt ≤ 2147483647 := by decide
  deriving DecidableEq

namespace OrderHint

/-- The hint of a module that gives none. Nothing sorts after it. -/
def lowestPrecedence : OrderHint := { toInt := 2147483647 }

instance : Inhabited OrderHint := ⟨lowestPrecedence⟩

/-- An integer as a hint, when it fits. -/
def ofInt? (n : Int) : Option OrderHint :=
  if h : -2147483648 ≤ n ∧ n ≤ 2147483647 then some ⟨n, h.1, h.2⟩ else none

instance : LE OrderHint := ⟨fun a b => a.toInt ≤ b.toInt⟩
instance : LT OrderHint := ⟨fun a b => a.toInt < b.toInt⟩

instance (a b : OrderHint) : Decidable (a ≤ b) := inferInstanceAs (Decidable (a.toInt ≤ b.toInt))
instance (a b : OrderHint) : Decidable (a < b) := inferInstanceAs (Decidable (a.toInt < b.toInt))

theorem ofInt?_eq_some_iff {n : Int} {h : OrderHint} : ofInt? n = some h ↔ h.toInt = n := by
  rw [ofInt?]
  split
  · exact ⟨fun e => by cases e; rfl, fun e => by cases h; cases e; rfl⟩
  · rename_i out
    refine ⟨fun e => by simp at e, fun e => ?_⟩
    exact absurd ⟨e ▸ h.lower, e ▸ h.upper⟩ out

theorem ofInt?_eq_none_iff {n : Int} :
    ofInt? n = none ↔ ¬ (-2147483648 ≤ n ∧ n ≤ 2147483647) := by
  rw [ofInt?]
  split <;> simp_all

@[simp] theorem ofInt?_toInt (h : OrderHint) : ofInt? h.toInt = some h :=
  ofInt?_eq_some_iff.2 rfl

end OrderHint

end Activation
