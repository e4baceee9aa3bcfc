-- SUMMARY: What texts are read as natural numbers and as integers.
import Activation.Proofs.Text.Blank
import Activation.Text.Integer
import Mathlib.Data.Nat.Digits.Defs

/-!
# Numerals

A numeral is a row of ASCII digits that is not empty, with at most a plus sign before it where
natural numbers are read, and with at most one sign before it where integers are read.
-/

namespace Activation.Text

variable {cs : List Char} {n : Nat}

theorem numeral?_eq_some_iff :
    numeral? cs = some n ↔ cs ≠ [] ∧ (∀ c ∈ cs, isDigit c = true) ∧ decimalValue cs = n := by
  unfold numeral?
  split
  · rename_i h
    simp only [Option.some.injEq, h, ne_eq, not_false_eq_true, true_and]
    exact (and_iff_right (List.all_eq_true.1 h.2)).symm
  · rename_i h
    simp only [reduceCtorEq, false_iff]
    intro hcs
    exact h ⟨hcs.1, List.all_eq_true.2 hcs.2.1⟩

/-- Digits that a plus sign may precede. -/
structure Natural (cs : List Char) (n : Nat) : Prop where
  digits : ∃ sign digits, cs = sign ++ digits ∧ (sign = [] ∨ sign = ['+']) ∧ digits ≠ [] ∧
    (∀ c ∈ digits, isDigit c = true) ∧ decimalValue digits = n

/-- A number is read from digits, with or without a plus sign before them. -/
theorem natural?_eq_some_iff : natural? cs = some n ↔ Natural cs n := by
  constructor
  · intro h
    unfold natural? at h
    split at h
    · obtain ⟨hne, hdigits, hn⟩ := numeral?_eq_some_iff.1 h
      exact ⟨['+'], _, rfl, .inr rfl, hne, hdigits, hn⟩
    · obtain ⟨hne, hdigits, hn⟩ := numeral?_eq_some_iff.1 h
      exact ⟨[], cs, rfl, .inl rfl, hne, hdigits, hn⟩
  · intro h
    obtain ⟨sign, digits, rfl, hsign, hne, hdigits, hn⟩ := h
    have hnumeral := numeral?_eq_some_iff.2 ⟨hne, hdigits, hn⟩
    cases hsign with
    | inr hsign =>
      subst hsign
      exact hnumeral
    | inl hsign =>
      subst hsign
      unfold natural?
      split
      · -- A plus sign is no digit.
        rename_i rest heq
        have hplus := hdigits '+' (by simp [show digits = '+' :: rest from heq])
        exact absurd hplus (by decide)
      · exact hnumeral

/-! ## Integers -/

/-- One or more ASCII digits, and the number that they stand for in base ten. Leading zeros are
    digits like any other. -/
structure Numeral (digits : List Char) (n : Nat) : Prop where
  nonempty : digits ≠ []
  each : ∀ c ∈ digits, '0' ≤ c ∧ c ≤ '9'
  value : Nat.ofDigits 10 (digits.reverse.map fun c => c.toNat - '0'.toNat) = n

/-- A numeral with at most one sign before it, and the integer that it stands for. -/
inductive Signed : List Char → Int → Prop
  | plain {digits : List Char} {n : Nat} (numeral : Numeral digits n) : Signed digits n
  | plus {digits : List Char} {n : Nat} (numeral : Numeral digits n) : Signed ('+' :: digits) n
  | minus {digits : List Char} {n : Nat} (numeral : Numeral digits n) : Signed ('-' :: digits) (-n)

theorem isDigit_iff {c : Char} : isDigit c = true ↔ '0' ≤ c ∧ c ≤ '9' := by
  simp only [isDigit, Bool.and_eq_true, decide_eq_true_eq]

/-- The value that the program folds from the front is the positional value of the digits. -/
theorem decimalValue_eq_ofDigits (digits : List Char) :
    decimalValue digits = Nat.ofDigits 10 (digits.reverse.map digitValue) := by
  simp only [decimalValue, List.foldl_eq_foldr_reverse, Nat.ofDigits_eq_foldr, List.foldr_map,
    Nat.cast_id, Nat.add_comm]

theorem numeral?_eq_some_iff_numeral : numeral? cs = some n ↔ Numeral cs n := by
  simp only [numeral?_eq_some_iff, isDigit_iff, decimalValue_eq_ofDigits]
  refine ⟨fun h => ⟨h.1, h.2.1, h.2.2⟩, fun h => ⟨h.nonempty, h.each, h.value⟩⟩

/-- A sign is no digit. -/
theorem Numeral.head_ne {c d : Char} (h : Numeral (c :: cs) n) (hd : isDigit d = false) :
    c ≠ d := by
  intro heq
  subst heq
  exact Bool.false_ne_true (hd.symm.trans (isDigit_iff.2 (h.each c List.mem_cons_self)))

theorem integer?_minus (cs : List Char) :
    integer? ('-' :: cs) = (numeral? cs).map fun n : Nat => -(n : Int) := by
  simp only [integer?, bind_pure_comp, Option.map_eq_map, Option.map_map, Function.comp_def]

theorem integer?_plus (cs : List Char) :
    integer? ('+' :: cs) = (numeral? cs).map fun n : Nat => (n : Int) := by
  cases hn : numeral? cs with
  | none => simp [integer?, natural?, hn]
  | some n => simp [integer?, natural?, hn]

/-- Without a sign the whole text has to be a numeral. -/
theorem integer?_of_unsigned (minus : ∀ ds, cs ≠ '-' :: ds) (plus : ∀ ds, cs ≠ '+' :: ds) :
    integer? cs = (numeral? cs).map fun n : Nat => (n : Int) := by
  unfold integer? natural?
  split
  · exact absurd rfl (minus _)
  · split
    · exact absurd rfl (plus _)
    · simp only [bind_pure_comp, Option.map_eq_map, Option.map_id']

/-- An integer is read from exactly the signed numerals, with the number that they denote. -/
theorem integer?_eq_some_iff {i : Int} : integer? cs = some i ↔ Signed cs i := by
  constructor
  · intro h
    by_cases minus : ∃ ds, cs = '-' :: ds
    · obtain ⟨ds, rfl⟩ := minus
      simp only [integer?_minus] at h
      obtain ⟨n, hn, rfl⟩ := Option.map_eq_some_iff.1 h
      exact .minus (numeral?_eq_some_iff_numeral.1 hn)
    by_cases plus : ∃ ds, cs = '+' :: ds
    · obtain ⟨ds, rfl⟩ := plus
      simp only [integer?_plus] at h
      obtain ⟨n, hn, rfl⟩ := Option.map_eq_some_iff.1 h
      exact .plus (numeral?_eq_some_iff_numeral.1 hn)
    simp only [integer?_of_unsigned (not_exists.1 minus) (not_exists.1 plus)] at h
    obtain ⟨n, hn, rfl⟩ := Option.map_eq_some_iff.1 h
    exact .plain (numeral?_eq_some_iff_numeral.1 hn)
  · intro h
    cases h with
    | minus numeral =>
      simp only [integer?_minus, numeral?_eq_some_iff_numeral.2 numeral, Option.map_some]
    | plus numeral =>
      simp only [integer?_plus, numeral?_eq_some_iff_numeral.2 numeral, Option.map_some]
    | plain numeral =>
      have minus : ∀ ds, cs ≠ '-' :: ds := fun ds heq => (heq ▸ numeral).head_ne rfl rfl
      have plus : ∀ ds, cs ≠ '+' :: ds := fun ds heq => (heq ▸ numeral).head_ne rfl rfl
      simp only [integer?_of_unsigned minus plus, numeral?_eq_some_iff_numeral.2 numeral,
        Option.map_some]

/-! ## Blanks around integers -/

theorem isBlank_of_digit {c : Char} (h : '0' ≤ c ∧ c ≤ '9') : isBlank c = false := by
  have hlower : 48 ≤ c.toNat := h.1
  have hupper : c.toNat ≤ 57 := h.2
  simp only [isBlank, blankRanges, List.any_cons, List.any_nil, Bool.or_false, Bool.or_eq_false_iff,
    Bool.and_eq_false_iff, decide_eq_false_iff_not]
  omega

/-- No blank stands at either end of a sign and digits. -/
theorem Numeral.unpadded_append {sign : List Char} (h : Numeral cs n)
    (hsign : ∀ c ∈ sign, isBlank c = false) : Unpadded (sign ++ cs) := by
  have hall : ∀ c ∈ sign ++ cs, isBlank c = false := fun c hc =>
    (List.mem_append.1 hc).elim (hsign c) fun hmem => isBlank_of_digit (h.each c hmem)
  exact ⟨fun c hc => hall c (List.mem_of_head? hc), fun c hc => hall c (List.mem_of_getLast? hc)⟩

theorem Signed.unpadded {i : Int} (h : Signed cs i) : Unpadded cs := by
  cases h with
  | plain numeral => exact numeral.unpadded_append (List.forall_mem_nil _)
  | plus numeral => exact numeral.unpadded_append (List.forall_mem_singleton.2 rfl)
  | minus numeral => exact numeral.unpadded_append (List.forall_mem_singleton.2 rfl)

/-- A trimmed text is read as the integer that the text spells out between blanks. -/
theorem integer?_trim_eq_some_iff {s : String} {i : Int} :
    integer? (trim s).toList = some i ↔ ∃ cs, Pads s.toList cs ∧ Signed cs i := by
  simp only [integer?_eq_some_iff, trim, String.toList_ofList]
  constructor
  · exact fun h => ⟨_, pads_trimChars s.toList, h⟩
  · intro h
    obtain ⟨cs, pads, signed⟩ := h
    exact trimChars_of_pads pads signed.unpadded ▸ signed

end Activation.Text
