-- SUMMARY: The JSON object of a selection reads as its three lists.
import Activation.Report
import Activation.Toml.Quotation
import Mathlib

/-!
# Reading reports back

A reader of JSON objects whose fields are lists of texts does not know how reports are laid out:
it passes over blanks before every mark and every text. In the object that is printed for a
selection it finds the three lists of the selection, each under its name.
-/

namespace Activation.Report

open Toml

/-! ## A reader of objects -/

/-- A character between quotation marks, escaped or not. A quotation mark, a control character
    and a backslash without a known escape are none. -/
def character : Scan Char := fun cs =>
  match cs with
  | '\\' :: '"' :: rest => some ('"', rest)
  | '\\' :: '\\' :: rest => some ('\\', rest)
  | '\\' :: '/' :: rest => some ('/', rest)
  | '\\' :: 'b' :: rest => some ('\x08', rest)
  | '\\' :: 'f' :: rest => some ('\x0C', rest)
  | '\\' :: 'n' :: rest => some ('\n', rest)
  | '\\' :: 'r' :: rest => some ('\r', rest)
  | '\\' :: 't' :: rest => some ('\t', rest)
  | '\\' :: 'u' :: rest => codePoint 4 rest
  | '\\' :: _ => none
  | '"' :: _ => none
  | c :: rest => if c.toNat < 0x20 then none else some (c, rest)
  | [] => none

def isSpace (c : Char) : Bool :=
  c = ' ' || c = '\n' || c = '\r' || c = '\t'

/-- The next character that is not blank. It stays where it is. -/
def next : Scan (Option Char) := do
  discard (Scan.takeWhile isSpace)
  Scan.peek

/-- A particular character, after blanks. -/
def mark (c : Char) : Scan Unit := do
  discard next
  Scan.char c

/-- The characters up to a quotation mark. -/
def characters : Scan String :=
  Scan.loop
    (fun cs => do
      if (← Scan.peek) = some '"' then
        Scan.char '"'
        return .inr (String.ofList cs)
      else return .inl (cs ++ [← character]))
    []

/-- A text in quotation marks. -/
def text : Scan String := do
  mark '"'
  characters

/-- A comma and one more item after those read, or the mark that closes them. -/
def another {α : Type} (item : Scan α) (close : Char) (read : List α) :
    Scan (List α ⊕ List α) := do
  if (← next) = some ',' then
    Scan.char ','
    return .inl (read ++ [← item])
  else
    Scan.char close
    return .inr read

/-- Items with commas between them, and the mark that closes them. -/
def items {α : Type} (item : Scan α) (close : Char) : Scan (List α) := do
  if (← next) = some close then
    Scan.char close
    return []
  else Scan.loop (another item close) [← item]

def texts : Scan (List String) := do
  mark '['
  items text ']'

def field : Scan (String × List String) := do
  let name ← text
  mark ':'
  return (name, ← texts)

def object : Scan (List (String × List String)) := do
  mark '\x7b'
  items field '\x7d'

/-- An object, with nothing but blanks after it. -/
def document : Scan (List (String × List String)) := do
  let fields ← object
  discard next
  return fields

/-- The fields of a JSON object in which the value of each field is a list of texts. -/
def read? (s : String) : Option (List (String × List String)) :=
  Scan.whole document s

/-! ## What scans make of printed parts -/

section Reads

variable {α β : Type} {x : Scan β} {f : β → Scan α} {a : α} {b : β} {cs rest : List Char}

theorem bind_apply (h : x cs = some (b, rest)) : (x >>= f) cs = f b rest := by
  simp only [bind, StateT.bind, h, Option.bind_some]

theorem discard_apply (h : x cs = some (b, rest)) : (discard x) cs = some ((), rest) := by
  simp only [discard, Functor.discard, Functor.mapConst, Function.comp, StateT.map, h]
  rfl

/-- A scan reads this code as this value, whatever follows. -/
def Reads (x : Scan α) (code : List Char) (a : α) : Prop :=
  ∀ rest, x (code ++ rest) = some (a, rest)

theorem Reads.bind {code code' : List Char} (hx : Reads x code b) (hf : Reads (f b) code' a) :
    Reads (x >>= f) (code ++ code') a := by
  intro rest
  rw [List.append_assoc, bind_apply (hx _), hf]

theorem reads_pure : Reads (pure a : Scan α) [] a := fun _ => rfl

theorem Reads.map {code : List Char} (hx : Reads x code b) (g : β → α) :
    Reads (do return g (← x)) code (g b) := by
  have h := hx.bind (f := fun b => pure (g b)) reads_pure
  rwa [List.append_nil] at h

theorem char_apply (c : Char) (rest : List Char) : Scan.char c (c :: rest) = some ((), rest) := by
  have hone : Scan.one (fun d => d = c) (c :: rest) = some (c, rest) := by
    rw [Scan.one, bind_apply rfl]
    simp only [decide_true, if_true]
    rfl
  exact discard_apply hone

/-- A repetition reads one value after the other, and then what ends it. -/
theorem Reads.loop {step : List β → Scan (List β ⊕ α)} {finish : List β → α}
    {code : β → List Char} {stop : List Char}
    (more : ∀ bs b, Reads (step bs) (code b) (.inl (bs ++ [b])))
    (nonempty : ∀ b, code b ≠ []) (done : ∀ bs, Reads (step bs) stop (.inr (finish bs)))
    (start bs : List β) :
    Reads (Scan.loop step start) (bs.flatMap code ++ stop) (finish (start ++ bs)) := by
  intro rest
  induction bs generalizing start with
  | nil => rw [List.flatMap_nil, List.nil_append, List.append_nil, Scan.loop, done]
  | cons b bs ih =>
    have hcode : (b :: bs).flatMap code ++ stop ++ rest =
        code b ++ (bs.flatMap code ++ stop ++ rest) := by
      simp only [List.flatMap_cons, List.append_assoc]
    have hshorter : (bs.flatMap code ++ stop ++ rest).length <
        (code b ++ (bs.flatMap code ++ stop ++ rest)).length := by
      have hpos := List.length_pos_iff.2 (nonempty b)
      simp only [List.length_append]
      omega
    rw [hcode, Scan.loop, more start b]
    simp only [hshorter, if_true]
    rw [ih, List.append_assoc]
    rfl

end Reads

/-! ## Blanks and marks -/

def Spaces (cs : List Char) : Prop := ∀ c ∈ cs, isSpace c = true

theorem spaces_nil : Spaces [] := fun _ h => absurd h List.not_mem_nil

section Marks

variable {spaces rest : List Char} {c : Char}

/-- Blanks are passed over, and what follows them stays. -/
theorem next_apply (hspaces : Spaces spaces) (hc : isSpace c = false) :
    next (spaces ++ c :: rest) = some (some c, c :: rest) := by
  have hdrop : (spaces ++ c :: rest).dropWhile isSpace = c :: rest := by
    rw [List.dropWhile_append_of_pos hspaces, List.dropWhile_cons_of_neg (by simp [hc])]
  show some (((spaces ++ c :: rest).dropWhile isSpace).head?,
    (spaces ++ c :: rest).dropWhile isSpace) = _
  rw [hdrop]
  rfl

theorem next_of_spaces (hspaces : Spaces spaces) : next spaces = some (none, []) := by
  have hdrop : spaces.dropWhile isSpace = [] := List.dropWhile_eq_nil_iff.2 hspaces
  show some ((spaces.dropWhile isSpace).head?, spaces.dropWhile isSpace) = _
  rw [hdrop]
  rfl

theorem next_mark (hspaces : Spaces spaces) (hc : isSpace c = false) (rest : List Char) :
    next (spaces ++ [c] ++ rest) = some (some c, c :: rest) := by
  rw [List.append_assoc, List.singleton_append]
  exact next_apply hspaces hc

theorem reads_mark (hspaces : Spaces spaces) (hc : isSpace c = false) :
    Reads (mark c) (spaces ++ [c]) () := by
  intro rest
  rw [mark, bind_apply (discard_apply (next_mark hspaces hc rest))]
  exact char_apply c rest

end Marks

/-! ## Characters -/

/-- The characters that are escaped. -/
def escaped : List Char := '"' :: '\\' :: (List.range 0x20).map Char.ofNat

theorem mem_escaped_of_control {c : Char} (h : c.toNat < 0x20) : c ∈ escaped := by
  simp only [escaped, List.mem_cons, List.mem_map, List.mem_range]
  exact .inr (.inr ⟨c.toNat, h, Char.ofNat_toNat c⟩)

/-- A character stands for itself unless it is a mark, a backslash or a control character. -/
theorem jsonChar_of_not_escaped {c : Char} (h : c ∉ escaped) : jsonChar c = [c] := by
  unfold jsonChar
  split
  case h_8 => rw [if_neg fun hcontrol => h (mem_escaped_of_control hcontrol)]
  all_goals exact absurd (by decide) h

/-- Every character is read back from how it is printed: of the escaped ones each is tried, and the
    others begin no escape. -/
theorem reads_character (c : Char) : Reads character (jsonChar c) c := by
  intro rest
  by_cases h : c ∈ escaped
  · simp only [escaped, List.mem_cons, List.mem_map, List.mem_range] at h
    obtain rfl | rfl | ⟨n, hn, rfl⟩ := h
    · rfl
    · rfl
    · interval_cases n <;> rfl
  · rw [jsonChar_of_not_escaped h]
    have hbackslash : c ≠ '\\' := by
      rintro rfl
      exact h (by decide)
    have hquote : c ≠ '"' := by
      rintro rfl
      exact h (by decide)
    have hcontrol : ¬ c.toNat < 0x20 := fun hcontrol => h (mem_escaped_of_control hcontrol)
    simp [character, hbackslash, hcontrol]

/-- No character is printed as nothing or as something that begins with a quotation mark, since
    neither is read as a character. -/
theorem exists_jsonChar_eq (c : Char) : ∃ d others, jsonChar c = d :: others ∧ d ≠ '"' := by
  have hread := reads_character c []
  cases h : jsonChar c with
  | nil =>
    rw [h] at hread
    cases hread
  | cons d others =>
    refine ⟨d, others, rfl, ?_⟩
    rintro rfl
    rw [h] at hread
    cases hread

/-! ## Texts -/

/-- A text is read up to the first quotation mark that is not part of a character. -/
theorem reads_characters (s : String) :
    Reads characters (s.toList.flatMap jsonChar ++ ['"']) s := by
  have hread : Reads characters (s.toList.flatMap jsonChar ++ ['"'])
      (String.ofList ([] ++ s.toList)) := by
    refine Reads.loop (fun cs c rest => ?_) (fun c => ?_) (fun cs rest => ?_) [] s.toList
    · obtain ⟨d, others, hcode, hd⟩ := exists_jsonChar_eq c
      have hpeek : Scan.peek (jsonChar c ++ rest) = some (some d, jsonChar c ++ rest) := by
        rw [hcode]
        rfl
      rw [bind_apply hpeek, if_neg (by simpa using hd)]
      exact (reads_character c).map _ rest
    · obtain ⟨d, others, hcode, -⟩ := exists_jsonChar_eq c
      rw [hcode]
      exact List.cons_ne_nil d others
    · have hpeek : Scan.peek ('"' :: rest) = some (some '"', '"' :: rest) := rfl
      rw [List.singleton_append, bind_apply hpeek, if_pos rfl, bind_apply (char_apply _ rest)]
      rfl
  rwa [List.nil_append, String.ofList_toList] at hread

/-- A scan reads the codes of values, which begin with a quotation mark, also after blanks. -/
structure ReadsQuoted {α : Type} (item : Scan α) (code : α → List Char) : Prop where
  quoted : ∀ a, ∃ others, code a = '"' :: others
  reads : ∀ a spaces, Spaces spaces → Reads item (spaces ++ code a) a

theorem readsQuoted_text : ReadsQuoted text fun s => (jsonText s).toList where
  quoted s := ⟨_, String.toList_ofList⟩
  reads s spaces hspaces := by
    have hread : Reads text (spaces ++ ['"'] ++ (s.toList.flatMap jsonChar ++ ['"'])) s :=
      (reads_mark hspaces rfl).bind (reads_characters s)
    rw [List.append_assoc] at hread
    rwa [jsonText, String.toList_ofList]

/-! ## Items -/

section Items

variable {α : Type} {item : Scan α} {code : α → List Char} {close : Char} {spaces : List Char}

theorem reads_items_nil (hspaces : Spaces spaces) (hclose : isSpace close = false) :
    Reads (items item close) (spaces ++ [close]) [] := by
  intro rest
  rw [items, bind_apply (next_mark hspaces hclose rest), if_pos rfl,
    bind_apply (char_apply close rest)]
  rfl

theorem reads_another_close (hspaces : Spaces spaces) (hclose : isSpace close = false)
    (hcomma : close ≠ ',') (read : List α) :
    Reads (another item close read) (spaces ++ [close]) (.inr read) := by
  intro rest
  rw [another, bind_apply (next_mark hspaces hclose rest), if_neg (by simpa using hcomma),
    bind_apply (char_apply close rest)]
  rfl

/-- After a comma one more item is read. -/
theorem ReadsQuoted.another_comma (h : ReadsQuoted item code) (hspaces : Spaces spaces)
    (read : List α) (a : α) :
    Reads (another item close read) (',' :: (spaces ++ code a)) (.inl (read ++ [a])) := by
  intro rest
  have hnext : ∀ cs, next (',' :: cs) = some (some ',', ',' :: cs) := fun cs =>
    next_apply spaces_nil rfl
  have hread := (h.reads a spaces hspaces).map fun a => (.inl (read ++ [a]) : List α ⊕ List α)
  rw [List.cons_append, another, bind_apply (hnext _), if_pos rfl,
    bind_apply (char_apply ',' _)]
  exact hread rest

/-- A row of items is read, whatever blanks stand before the items and before the closing
    mark. -/
theorem ReadsQuoted.items_cons (h : ReadsQuoted item code) {indent : List Char}
    (hindent : Spaces indent) (hspaces : Spaces spaces) (hclose : isSpace close = false)
    (hquote : close ≠ '"') (hcomma : close ≠ ',') (a : α) (others : List α) :
    Reads (items item close)
      (indent ++ code a ++
        (others.flatMap (fun b => ',' :: (indent ++ code b)) ++ (spaces ++ [close])))
      (a :: others) := by
  have hloop := Reads.loop (h.another_comma hindent) (fun b => List.cons_ne_nil _ _)
    (reads_another_close hspaces hclose hcomma) [a] others
  -- The quotation mark of the first item tells that the row is not closed at once.
  obtain ⟨tail, hcode⟩ := h.quoted a
  intro rest
  rw [List.append_assoc, List.append_assoc, hcode, List.cons_append, items,
    bind_apply (next_apply hindent rfl), if_neg (by simpa using hquote.symm),
    ← List.cons_append, ← hcode]
  have hfirst := h.reads a [] spaces_nil
  rw [List.nil_append] at hfirst
  rw [bind_apply (hfirst _)]
  exact hloop rest

end Items

/-! ## Objects -/

theorem toList_intercalate_cons (sep first : String) (others : List String) :
    (String.intercalate sep (first :: others)).toList =
      first.toList ++ others.flatMap fun other => sep.toList ++ other.toList := by
  induction others generalizing first with
  | nil => simp
  | cons other others ih =>
    rw [String.intercalate_cons_cons, String.toList_append, ih]
    simp

/-- The first text of a list follows the bracket, and every other one a comma. -/
theorem toList_jsonList_cons (first : String) (others : List String) :
    (jsonList (first :: others)).toList =
      ['['] ++ ("\n    ".toList ++ (jsonText first).toList ++
        (others.flatMap (fun other => ',' :: ("\n    ".toList ++ (jsonText other).toList)) ++
          ("\n  ".toList ++ [']']))) := by
  rw [jsonList, if_neg (List.cons_ne_nil _ _), List.map_cons]
  simp only [String.toList_append, toList_intercalate_cons, List.flatMap_map, List.append_assoc]
  rfl

/-- A list of texts is read back, also an empty one, which is printed without line ends. -/
theorem reads_texts (items : List String) {spaces : List Char} (hspaces : Spaces spaces) :
    Reads texts (spaces ++ (jsonList items).toList) items := by
  have hmark := reads_mark hspaces (rfl : isSpace '[' = false)
  cases items with
  | nil =>
    have hread : Reads texts _ [] := hmark.bind (reads_items_nil spaces_nil rfl)
    rwa [List.append_assoc] at hread
  | cons first others =>
    have hindent : Spaces "\n    ".toList := by simp [Spaces, isSpace]
    have hclosing : Spaces "\n  ".toList := by simp [Spaces, isSpace]
    have hread : Reads texts _ (first :: others) := hmark.bind
      (readsQuoted_text.items_cons hindent hclosing rfl (by decide) (by decide) first others)
    rwa [List.append_assoc, ← toList_jsonList_cons] at hread

/-- A field of a JSON object. -/
def jsonField (f : String × List String) : String := jsonText f.1 ++ ": " ++ jsonList f.2

/-- A field is read back as its name and its list. -/
theorem readsQuoted_field : ReadsQuoted field fun f => (jsonField f).toList where
  quoted f := by
    obtain ⟨others, hcode⟩ := readsQuoted_text.quoted f.1
    refine ⟨others ++ (": " ++ jsonList f.2).toList, ?_⟩
    rw [jsonField, String.append_assoc, String.toList_append, hcode]
    rfl
  reads f spaces hspaces := by
    have hname := readsQuoted_text.reads f.1 spaces hspaces
    have hcolon := reads_mark spaces_nil (rfl : isSpace ':' = false)
    have hspace : Spaces " ".toList := by simp [Spaces, isSpace]
    have htexts := reads_texts f.2 hspace
    have hread : Reads field _ f := hname.bind (hcolon.bind (htexts.map fun texts => (f.1, texts)))
    rw [List.append_assoc] at hread
    rwa [jsonField, String.append_assoc, String.toList_append, String.toList_append]

theorem toList_jsonObject_cons (first : String × List String)
    (others : List (String × List String)) :
    (jsonObject (first :: others)).toList =
      ['\x7b'] ++ ("\n  ".toList ++ (jsonField first).toList ++
        (others.flatMap (fun other => ',' :: ("\n  ".toList ++ (jsonField other).toList)) ++
          ("\n".toList ++ ['\x7d']))) := by
  rw [jsonObject, List.map_cons]
  simp only [String.toList_append, toList_intercalate_cons, List.flatMap_map, List.append_assoc,
    jsonField]
  rfl

/-- An object is read back as its fields, in order. -/
theorem reads_object (fields : List (String × List String)) :
    Reads object (jsonObject fields).toList fields := by
  have hmark := reads_mark spaces_nil (rfl : isSpace '\x7b' = false)
  cases fields with
  | nil =>
    have hspaces : Spaces "\n\n".toList := by simp [Spaces, isSpace]
    exact hmark.bind (reads_items_nil hspaces rfl)
  | cons first others =>
    have hindent : Spaces "\n  ".toList := by simp [Spaces, isSpace]
    have hclosing : Spaces "\n".toList := by simp [Spaces, isSpace]
    rw [toList_jsonObject_cons]
    exact hmark.bind
      (readsQuoted_field.items_cons hindent hclosing rfl (by decide) (by decide) first others)

/-- The reader and the printer of objects agree on all objects, not only on those of selections. -/
theorem read?_jsonObject (fields : List (String × List String)) :
    read? (jsonObject fields ++ "\n") = some fields := by
  have hspaces : Spaces "\n".toList := by simp [Spaces, isSpace]
  have hdocument : document (jsonObject fields ++ "\n").toList = some (fields, []) := by
    rw [String.toList_append, document, bind_apply (reads_object fields _),
      bind_apply (discard_apply (next_of_spaces hspaces))]
    rfl
  rw [read?, Scan.whole, hdocument]

/-- The JSON object of a selection has its lists, each under its name. -/
theorem read?_json (s : Selection) :
    read? (json s) =
      some [("modules", s.modules), ("exclusions", s.exclusions.toList),
        ("filtered", s.filtered)] :=
  read?_jsonObject _

end Activation.Report
