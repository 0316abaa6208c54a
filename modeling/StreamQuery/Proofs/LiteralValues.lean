import Mathlib.Tactic.Common
import StreamQuery.Constant

/-!
# The values of string literals

By the rules of SQL a string literal starts with a quote, two quotes in a row are one quote of its
value, and a quote that stands alone ends it.  `scanLiteral?` reads the literal at the start of a
text.

A constant can have quotes in runs, also at its ends, next to the quotes of its literal.  They do no
harm: `literal_scanned_iff` says that a value is read exactly where its literal has been written,
unless one more quote follows.
-/

namespace StreamQuery.Constant

open List

/-! ## Reading a literal -/

/-- The value of a literal behind its opening quote, and the rest. -/
def scanBody? : List Char → Option (List Char × List Char)
  | [] => none
  | '\'' :: '\'' :: rest => (scanBody? rest).map (Prod.map ('\'' :: ·) id)
  | '\'' :: rest => some ([], rest)
  | c :: rest => (scanBody? rest).map (Prod.map (c :: ·) id)

/-- The value of the literal that starts a text, and the rest. -/
def scanLiteral? : List Char → Option (List Char × List Char)
  | '\'' :: text => scanBody? text
  | _ => none

/-! ## Writing and reading -/

variable {s rest text : List Char}

lemma scanBody?_close (hrest : rest.head? ≠ some '\'') :
    scanBody? ('\'' :: rest) = some ([], rest) := by
  cases rest with
  | nil => rfl
  | cons c rest =>
    rw [scanBody?]
    rintro rest' ⟨⟩
    exact hrest rfl

lemma scanBody?_cons {c : Char} (hc : c ≠ '\'') (rest : List Char) :
    scanBody? (c :: rest) = (scanBody? rest).map (Prod.map (c :: ·) id) := by
  rw [scanBody?]
  · rintro rest' rfl
    exact absurd rfl hc
  · exact hc

/-- A value is read from the body that is written for it. -/
lemma scanBody?_doubleQuotes (s : List Char) (hrest : rest.head? ≠ some '\'') :
    scanBody? (doubleQuotes s ++ '\'' :: rest) = some (s, rest) := by
  induction s with
  | nil => exact scanBody?_close hrest
  | cons c s ih =>
    by_cases hc : c = '\''
    · rw [hc, doubleQuotes_quote, cons_append, cons_append, scanBody?, ih]
      rfl
    · rw [doubleQuotes_cons hc, cons_append, scanBody?_cons hc, ih]
      rfl

/-- A value is read from no other body. -/
lemma eq_doubleQuotes_of_scanBody? (h : scanBody? text = some (s, rest)) :
    text = doubleQuotes s ++ '\'' :: rest ∧ rest.head? ≠ some '\'' := by
  induction text using scanBody?.induct generalizing s with
  | case1 => cases h
  | case2 tail ih =>
    rw [scanBody?, Option.map_eq_some_iff] at h
    obtain ⟨⟨v, _⟩, hv, ⟨⟩⟩ := h
    obtain ⟨rfl, hrest⟩ := ih hv
    exact ⟨rfl, hrest⟩
  | case3 tail hlone =>
    have hclose : tail.head? ≠ some '\'' := by
      rw [Ne, head?_eq_some_iff]
      rintro ⟨tail', rfl⟩
      exact hlone tail' rfl
    rw [scanBody?_close hclose] at h
    cases h
    exact ⟨rfl, hclose⟩
  | case4 c tail hpair hlone ih =>
    rw [scanBody?_cons hlone, Option.map_eq_some_iff] at h
    obtain ⟨⟨v, _⟩, hv, ⟨⟩⟩ := h
    obtain ⟨rfl, hrest⟩ := ih hv
    refine ⟨?_, hrest⟩
    rw [doubleQuotes_cons hlone, cons_append]

lemma cons_of_scanLiteral? {found : List Char × List Char} (h : scanLiteral? text = some found) :
    ∃ body, text = '\'' :: body ∧ scanBody? body = some found := by
  unfold scanLiteral? at h
  split at h
  · exact ⟨_, rfl, h⟩
  · cases h

/-- The value `s` is read in front of `rest` exactly from the literal of `s` with `rest` behind it,
where `rest` does not start with a quote. So a constant neither ends its literal early nor takes in
what follows. -/
theorem literal_scanned_iff (text s rest : String) :
    scanLiteral? text.toList = some (s.toList, rest.toList) ↔
      text = (Constant.string s).sql ++ rest ∧ rest.toList.head? ≠ some '\'' := by
  have hsql : ((Constant.string s).sql ++ rest).toList =
      '\'' :: (doubleQuotes s.toList ++ '\'' :: rest.toList) := by
    rw [String.toList_append, sql, toList_quoted, cons_append, append_assoc, singleton_append]
  rw [← String.toList_inj, hsql]
  constructor
  · intro h
    obtain ⟨body, htext, hbody⟩ := cons_of_scanLiteral? h
    obtain ⟨rfl, hrest⟩ := eq_doubleQuotes_of_scanBody? hbody
    exact ⟨htext, hrest⟩
  · rintro ⟨htext, hrest⟩
    rw [htext, scanLiteral?]
    exact scanBody?_doubleQuotes s.toList hrest

/-- Quotes at both ends of a constant and in the text behind it. -/
example : scanLiteral? ((Constant.string "'it''s'").sql ++ " = 'x'").toList =
    some ("'it''s'".toList, " = 'x'".toList) := by decide

end StreamQuery.Constant
