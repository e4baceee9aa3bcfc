-- SUMMARY: Which values of an attribute stand for an order hint, and which attribute makes metadata unreadable.
import Activation.Proofs.Except
import Activation.Proofs.Index.Listing
import Activation.Proofs.Text.Integer
import Mathlib

/-!
# Order hints as attributes

An integer attribute may be an integer or a text that spells one out in decimal digits, with at
most one sign before them and with blanks around them. Integers of any size can be written in both
ways. Those that fit into a hint read as themselves, and all others make the attribute malformed:
none is cut to size.
-/

namespace Activation.Index

variable {index : Index} {id : ModuleId} {name : String} {v : Toml.Value} {hint default : OrderHint}

/-- A value stands for an integer, of whatever size. -/
inductive Denotes : Toml.Value → Int → Prop
  | integer {n : Int} : Denotes (.integer n) n
  /-- A text spells out an integer between blanks. -/
  | text {s : String} {cs : List Char} {n : Int} (pads : Text.Pads s.toList cs)
      (signed : Text.Signed cs n) : Denotes (.string s) n

/-- A value stands for no integer of 32 bits. -/
def MalformedHint (v : Toml.Value) : Prop :=
  ∀ n, Denotes v n → n < -2147483648 ∨ 2147483647 < n

/-- A module has an attribute with a value of a kind. -/
def Has (index : Index) (id : ModuleId) (name : String) (kind : Toml.Value → Prop) : Prop :=
  ∃ v, index.get? id name = some v ∧ kind v

/-- Of the attributes that hold ordering metadata, the first that is malformed. -/
inductive FirstMalformed (index : Index) (id : ModuleId) : AttributeFailure → Prop
  | order (order : index.Has id orderAttribute MalformedHint) :
      FirstMalformed index id ⟨id, orderAttribute, .integer⟩
  | before (order : ¬ index.Has id orderAttribute MalformedHint)
      (before : index.Has id beforeAttribute Malformed) :
      FirstMalformed index id ⟨id, beforeAttribute, .names⟩
  | after (order : ¬ index.Has id orderAttribute MalformedHint)
      (before : ¬ index.Has id beforeAttribute Malformed)
      (after : index.Has id afterAttribute Malformed) :
      FirstMalformed index id ⟨id, afterAttribute, .names⟩

/-! ## Values -/

/-- A value is read as a hint exactly if it denotes the number of that hint. -/
theorem hintOfValue?_eq_some_iff : hintOfValue? v = some hint ↔ Denotes v hint.toInt := by
  cases v with
  | integer n =>
    simp only [hintOfValue?, OrderHint.ofInt?_eq_some_iff]
    constructor
    · intro h
      exact h ▸ .integer
    · intro h
      cases h
      rfl
  | string s =>
    simp only [hintOfValue?, Option.bind_eq_some_iff, Text.integer?_trim_eq_some_iff,
      OrderHint.ofInt?_eq_some_iff, exists_eq_right']
    constructor
    · intro h
      obtain ⟨cs, pads, signed⟩ := h
      exact .text pads signed
    · intro h
      cases h with
      | text pads signed => exact ⟨_, pads, signed⟩
  | _ =>
    constructor
    · intro h
      cases h
    · intro h
      cases h

/-- Reading a hint fails for exactly the malformed values. -/
theorem hintOfValue?_eq_none_iff : hintOfValue? v = none ↔ MalformedHint v := by
  simp only [Option.eq_none_iff_forall_ne_some, ne_eq, hintOfValue?_eq_some_iff]
  constructor
  · intro h n denotes
    by_contra hin
    simp only [not_or, not_lt] at hin
    exact h ⟨n, hin.1, hin.2⟩ denotes
  · intro h hint denotes
    cases h hint.toInt denotes with
    | inl below => exact absurd hint.lower (not_le.2 below)
    | inr above => exact absurd hint.upper (not_le.2 above)

/-! ## Attributes -/

section Read

variable {α : Type} {convert? : Toml.Value → Option α} {expected : AttributeShape} {a default : α}

/-- An attribute is the default where it is absent, else what its value converts to. -/
theorem read_eq_ok_iff : index.read convert? expected id name default = .ok a ↔
    index.get? id name = none ∧ a = default ∨ index.Has id name (convert? · = some a) := by
  unfold read Has
  cases index.get? id name with
  | none => simp [eq_comm]
  | some v => cases hv : convert? v <;> simp [hv]

/-- An absent attribute is no failure. One that is there fails exactly if its value does not
    convert, and the failure says where it stands. -/
theorem read_eq_error_iff {failure : AttributeFailure} :
    index.read convert? expected id name default = .error failure ↔
      failure = ⟨id, name, expected⟩ ∧ index.Has id name (convert? · = none) := by
  unfold read Has
  cases index.get? id name with
  | none => simp
  | some v => cases hv : convert? v <;> simp [hv, eq_comm]

/-- An attribute reads unless it is there and malformed. -/
theorem exists_read_eq_ok_iff :
    (∃ a, index.read convert? expected id name default = .ok a) ↔
      ¬ index.Has id name (convert? · = none) := by
  unfold read Has
  cases index.get? id name with
  | none => simp
  | some v => cases hv : convert? v <;> simp [hv]

end Read

theorem getInteger_eq_ok_iff : index.getInteger id name default = .ok hint ↔
    index.get? id name = none ∧ hint = default ∨ index.Has id name (Denotes · hint.toInt) := by
  simp only [getInteger, read_eq_ok_iff, hintOfValue?_eq_some_iff]

theorem getInteger_eq_error_iff {failure : AttributeFailure} :
    index.getInteger id name default = .error failure ↔
      failure = ⟨id, name, .integer⟩ ∧ index.Has id name MalformedHint := by
  simp only [getInteger, read_eq_error_iff, hintOfValue?_eq_none_iff]

theorem exists_getInteger_eq_ok_iff (default : OrderHint) :
    (∃ hint, index.getInteger id name default = .ok hint) ↔ ¬ index.Has id name MalformedHint := by
  simp only [getInteger, exists_read_eq_ok_iff, hintOfValue?_eq_none_iff]

theorem getNames_eq_error_iff {failure : AttributeFailure} :
    index.getNames id name = .error failure ↔
      failure = ⟨id, name, .names⟩ ∧ index.Has id name Malformed := by
  simp only [getNames, read_eq_error_iff, namesOfValue?_eq_none_iff]

theorem exists_getNames_eq_ok_iff : (∃ names, index.getNames id name = .ok names) ↔
    ¬ index.Has id name Malformed := by
  simp only [getNames, exists_read_eq_ok_iff, namesOfValue?_eq_none_iff]

/-! ## Metadata -/

/-- Of the three attributes the first that is malformed is named. -/
theorem firstMalformed_of_metadata {failure : AttributeFailure}
    (h : index.metadata id = .error failure) : FirstMalformed index id failure := by
  cases bind_eq_error_iff.1 h with
  | inl horder =>
    obtain ⟨rfl, malformed⟩ := getInteger_eq_error_iff.1 horder
    exact .order malformed
  | inr hrest =>
    obtain ⟨hint, horder, hrest⟩ := hrest
    have order := (exists_getInteger_eq_ok_iff .lowestPrecedence).1 ⟨hint, horder⟩
    cases bind_eq_error_iff.1 hrest with
    | inl hbefore =>
      obtain ⟨rfl, malformed⟩ := getNames_eq_error_iff.1 hbefore
      exact .before order malformed
    | inr hrest =>
      obtain ⟨names, hbefore, hrest⟩ := hrest
      have before := exists_getNames_eq_ok_iff.1 ⟨names, hbefore⟩
      cases bind_eq_error_iff.1 hrest with
      | inl hafter =>
        obtain ⟨rfl, malformed⟩ := getNames_eq_error_iff.1 hafter
        exact .after order before malformed
      | inr hread =>
        obtain ⟨_, -, hread⟩ := hread
        cases hread

/-- Where an attribute is malformed and those before it are not, its failure is what is told. -/
theorem FirstMalformed.metadata_eq {failure : AttributeFailure}
    (h : FirstMalformed index id failure) : index.metadata id = .error failure := by
  cases h with
  | order order =>
    have horder : index.getInteger id orderAttribute .lowestPrecedence = _ :=
      getInteger_eq_error_iff.2 ⟨rfl, order⟩
    simp only [metadata, horder]
    rfl
  | before order before =>
    obtain ⟨hint, horder⟩ := (exists_getInteger_eq_ok_iff .lowestPrecedence).2 order
    have hbefore := getNames_eq_error_iff.2 ⟨rfl, before⟩
    simp only [metadata, horder, hbefore]
    rfl
  | after order before after =>
    obtain ⟨hint, horder⟩ := (exists_getInteger_eq_ok_iff .lowestPrecedence).2 order
    obtain ⟨names, hbefore⟩ := exists_getNames_eq_ok_iff.2 before
    have hafter := getNames_eq_error_iff.2 ⟨rfl, after⟩
    simp only [metadata, horder, hbefore, hafter]
    rfl

/-- An integer attribute reads as the integer that it stands for, as it is, and it fails where that
    does not fit into a hint or where it stands for none. Metadata fails with the first of its
    attributes that is malformed. -/
theorem hints_read_unwrapped (index : Index) (id : ModuleId) :
    (∀ name default hint, index.getInteger id name default = .ok hint ↔
      index.get? id name = none ∧ hint = default ∨
      ∃ v, index.get? id name = some v ∧ Denotes v hint.toInt) ∧
    (∀ name default failure, index.getInteger id name default = .error failure ↔
      failure = ⟨id, name, .integer⟩ ∧ ∃ v, index.get? id name = some v ∧ MalformedHint v) ∧
    ∀ failure, index.metadata id = .error failure ↔ FirstMalformed index id failure := by
  refine ⟨fun name default hint => getInteger_eq_ok_iff,
    fun name default failure => getInteger_eq_error_iff, fun failure => ?metadata⟩
  case metadata => exact ⟨firstMalformed_of_metadata, FirstMalformed.metadata_eq⟩

/-- Blanks and zeros before a number do not count, and the next larger number is no hint. -/
example : (hintOfValue? (.string "\t+0000000000002147483647 ")).map (·.toInt) = some 2147483647 ∧
    hintOfValue? (.string "2147483648") = none ∧ hintOfValue? (.integer 4294967296) = none := by
  decide +kernel

end Activation.Index
