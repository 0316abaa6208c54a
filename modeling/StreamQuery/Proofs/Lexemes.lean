import Mathlib.Tactic.Common
import StreamQuery.Constant

/-!
# Lexemes

A SQL text is cut into lexemes: words, string literals, marks and blanks.  The lexemes of a text
that is put together from others are those of its parts, as long as every part is apart from the
next one and ends its literals (`Lexer.read_append`).  A text that goes on inside a literal says
nothing new (`Lexer.read_append_or`).
-/

namespace StreamQuery

open List

/-! ## Reading a text -/

/-- A piece of a text. -/
inductive Lexeme where
  /-- A name, a keyword or a number. -/
  | word (w : List Char)
  | text (s : List Char)
  /-- A bracket, a comma or a character of an operator. -/
  | mark (c : Char)
  | blank
deriving DecidableEq, Inhabited

/-- Brackets, commas and the characters of operators. -/
def Lexeme.marks : List Char :=
  ['(', ')', ',', '=', '<', '>', '!', '+', '-', '*', '/', '%']

/-- True for brackets, commas and the characters of operators. -/
def Lexeme.isMark (c : Char) : Bool :=
  marks.contains c

/-- True for a character that ends a word and is a lexeme of its own. -/
def Lexeme.isDelimiter (c : Char) : Bool :=
  Text.isBlank c || isMark c

/-- The lexeme of a character that ends a word. -/
def Lexeme.ofDelimiter (c : Char) : Lexeme :=
  if Text.isBlank c then .blank else .mark c

/-- True for a character that a word can hold. -/
def Lexeme.isWordChar (c : Char) : Bool :=
  !isDelimiter c && c != '\''

/-- Where the lexer stands. -/
inductive Lexer where
  | between
  | word (w : List Char)
  | quoted (s : List Char)
  /-- Behind a quotation mark that ends a literal, unless another one follows. -/
  | closed (s : List Char)
deriving DecidableEq, Inhabited

namespace Lexer

open Lexeme

/-- The lexeme that has been read, if the text ends here; an open literal leaves its mark. -/
def flush : Lexer → List Lexeme
  | .between => []
  | .word w => [.word w]
  | .quoted _ => [.mark '\'']
  | .closed s => [.text s]

/-- The first character of a lexeme. -/
def start (c : Char) : Lexer × List Lexeme :=
  if isDelimiter c then (.between, [ofDelimiter c])
  else if c = '\'' then (.quoted [], [])
  else (.word [c], [])

/-- A character: where the lexer stands behind it, and the lexemes that it ends. -/
def step : Lexer → Char → Lexer × List Lexeme
  | .between, c => start c
  | .word w, c =>
    if isWordChar c then (.word (w ++ [c]), []) else ((start c).1, .word w :: (start c).2)
  | .quoted s, c => (if c = '\'' then .closed s else .quoted (s ++ [c]), [])
  | .closed s, c =>
    if c = '\'' then (.quoted (s ++ [c]), []) else ((start c).1, .text s :: (start c).2)

/-- Where the lexer stands behind a text. -/
def after (l : Lexer) (cs : List Char) : Lexer :=
  cs.foldl (fun l c => (l.step c).1) l

/-- The lexemes of a text, from where the lexer stands. -/
def read (l : Lexer) : List Char → List Lexeme
  | [] => l.flush
  | c :: rest => (l.step c).2 ++ read (l.step c).1 rest

/-- True inside a literal. -/
def isQuoted : Lexer → Bool
  | .quoted _ => true
  | _ => false

end Lexer

/-- The lexemes of a text. -/
def lexemes (s : String) : List Lexeme :=
  Lexer.between.read s.toList

/-! ## Texts that are put together -/

namespace Lexer

open Lexeme

variable {l : Lexer} {a b : List Char}

@[simp] lemma after_nil (l : Lexer) : l.after [] = l := rfl

@[simp] lemma after_cons (l : Lexer) (c : Char) (cs : List Char) :
    l.after (c :: cs) = (l.step c).1.after cs := rfl

@[simp] lemma after_append (l : Lexer) (a b : List Char) : l.after (a ++ b) = (l.after a).after b :=
  foldl_append

@[simp] lemma read_nil (l : Lexer) : l.read [] = l.flush := rfl

@[simp] lemma read_cons (l : Lexer) (c : Char) (cs : List Char) :
    l.read (c :: cs) = (l.step c).2 ++ (l.step c).1.read cs := rfl

/-- True when a text is at its end or goes on with a character that ends words. -/
def isApart (cs : List Char) : Bool :=
  cs.head?.all isDelimiter

lemma ne_quote_of_isDelimiter {c : Char} (h : isDelimiter c) : c ≠ '\'' := by
  rintro rfl
  revert h
  decide

lemma step_delimiter (hl : l.isQuoted = false) {c : Char} (hc : isDelimiter c) :
    l.step c = (.between, l.flush ++ [ofDelimiter c]) := by
  have hquote := ne_quote_of_isDelimiter hc
  cases l with
  | between => simp [step, start, flush, hc]
  | word w => simp [step, start, flush, isWordChar, hc]
  | quoted s => cases hl
  | closed s => simp [step, start, flush, hc, hquote]

lemma read_of_isApart (hl : l.isQuoted = false) (hb : isApart b) :
    l.read b = l.flush ++ between.read b := by
  cases b with
  | nil => simp [flush]
  | cons c b =>
    have hc : isDelimiter c := hb
    rw [read_cons, read_cons, step_delimiter hl hc, step_delimiter rfl hc]
    simp [flush]

lemma read_append_of_flush {ts : List Lexeme} (h : (l.after a).read b = (l.after a).flush ++ ts) :
    l.read (a ++ b) = l.read a ++ ts := by
  induction a generalizing l with
  | nil => exact h
  | cons c a ih => rw [cons_append, read_cons, read_cons, ih h, append_assoc]

/-- The lexemes of two texts, if the second is apart and no literal open. -/
lemma read_append (hl : (l.after a).isQuoted = false) (hb : isApart b) :
    l.read (a ++ b) = l.read a ++ between.read b :=
  read_append_of_flush (read_of_isApart hl hb)

lemma read_append_of_between (hl : l.after a = .between) (b : List Char) :
    l.read (a ++ b) = l.read a ++ between.read b :=
  read_append_of_flush (by rw [hl]; rfl)

lemma after_of_isApart (hl : l.isQuoted = false) (hb : isApart b) :
    (l.after b).isQuoted = (between.after b).isQuoted := by
  cases b with
  | nil => exact hl
  | cons c b =>
    have hc : isDelimiter c := hb
    rw [after_cons, after_cons, step_delimiter hl hc, step_delimiter rfl hc]

lemma read_of_isQuoted (hl : l.isQuoted) (hb : '\'' ∉ b) : l.read b = l.flush := by
  induction b generalizing l with
  | nil => rfl
  | cons c b ih =>
    rw [mem_cons, not_or] at hb
    cases l with
    | quoted s =>
      have hstep : (quoted s).step c = (.quoted (s ++ [c]), []) := by
        simp [step, Ne.symm hb.1]
      rw [read_cons, hstep]
      exact ih rfl hb.2
    | _ => cases hl

/-- An apart text without quotation marks adds its lexemes, or none in a literal. -/
lemma read_append_or (l : Lexer) (a : List Char) (hb : isApart b) (hquote : '\'' ∉ b) :
    l.read (a ++ b) = l.read a ++ between.read b ∨ l.read (a ++ b) = l.read a := by
  cases hl : (l.after a).isQuoted with
  | false => exact .inl (read_append hl hb)
  | true =>
    right
    have hflush : (l.after a).read b = (l.after a).flush ++ [] := by
      rw [append_nil, read_of_isQuoted hl hquote]
    rw [read_append_of_flush hflush, append_nil]

/-! ## Words -/

/-- A word grows by the characters of words. -/
lemma read_word_append (w : List Char) {v : List Char} (hv : ∀ c ∈ v, isWordChar c) :
    (word w).read v = [.word (w ++ v)] ∧ (word w).after v = .word (w ++ v) := by
  induction v generalizing w with
  | nil => simp [flush]
  | cons c v ih =>
    have hc : isWordChar c := hv c (mem_cons_self ..)
    have hrest := ih (w ++ [c]) (forall_mem_cons.1 hv).2
    rw [append_assoc, singleton_append] at hrest
    simpa [step, hc] using hrest

lemma isWordChar_iff {c : Char} : isWordChar c ↔ isDelimiter c = false ∧ c ≠ '\'' := by
  simp [isWordChar]

lemma read_word {w : List Char} (hne : w ≠ []) (hw : ∀ c ∈ w, isWordChar c) :
    between.read w = [.word w] ∧ between.after w = .word w := by
  obtain ⟨c, v, rfl⟩ := exists_cons_of_ne_nil hne
  obtain ⟨hdelimiter, hquote⟩ := isWordChar_iff.1 (hw c (mem_cons_self ..))
  have hrest := read_word_append [c] (forall_mem_cons.1 hw).2
  simpa [step, start, hdelimiter, hquote] using hrest

/-! ## Literals -/

/-- The rest of a literal whose quotation marks are doubled. -/
lemma read_doubleQuotes (b s : List Char) :
    (quoted b).read (Constant.doubleQuotes s ++ ['\'']) = [.text (b ++ s)] ∧
      (quoted b).after (Constant.doubleQuotes s ++ ['\'']) = .closed (b ++ s) := by
  induction s generalizing b with
  | nil => simp [Constant.doubleQuotes, step, flush]
  | cons c s ih =>
    have hrest := ih (b ++ [c])
    rw [append_assoc, singleton_append] at hrest
    by_cases hc : c = '\''
    · subst hc
      simpa [Constant.doubleQuotes, step] using hrest
    · simpa [Constant.doubleQuotes, step, hc] using hrest

/-- A string literal is a lexeme. -/
lemma read_quoted (s : String) :
    between.read (Constant.quoted s).toList = [.text s.toList] ∧
      between.after (Constant.quoted s).toList = .closed s.toList := by
  have hopen : between.step '\'' = (.quoted [], []) := by decide
  have hrest := read_doubleQuotes [] s.toList
  rw [nil_append] at hrest
  rw [Constant.toList_quoted, read_cons, after_cons, hopen]
  exact hrest

lemma isWordChar_of_isDigit {c : Char} (h : c.isDigit) : isWordChar c := by
  have hbounds : 48 ≤ c.toNat ∧ c.toNat ≤ 57 := by
    unfold Char.isDigit at h
    simp only [Bool.and_eq_true, decide_eq_true_eq, ge_iff_le, UInt32.le_iff_toNat_le] at h
    exact h
  have hblank : Text.isBlank c = false := by
    rw [Bool.eq_false_iff]
    intro hc
    simp only [Text.isBlank, Bool.or_eq_true, Bool.and_eq_true, decide_eq_true_eq, beq_iff_eq] at hc
    omega
  have hquote : c ≠ '\'' := by
    rintro rfl
    revert h
    decide
  have hmark : isMark c = false := by
    have hall : marks.all (fun d => !d.isDigit) := by decide
    rw [Bool.eq_false_iff]
    intro hmem
    have hdigit := all_eq_true.1 hall c (contains_iff_mem.1 hmem)
    rw [h] at hdigit
    cases hdigit
  rw [isWordChar_iff, isDelimiter, hblank, hmark]
  exact ⟨rfl, hquote⟩

end Lexer

/-! ## Whole texts -/

/-- A text that ends its literals, with its lexemes. -/
structure Lexes (cs : List Char) (ts : List Lexeme) : Prop where
  read : Lexer.between.read cs = ts
  isQuoted : (Lexer.between.after cs).isQuoted = false

/-- It can be checked which lexemes a text has. -/
instance (cs : List Char) (ts : List Lexeme) : Decidable (Lexes cs ts) :=
  decidable_of_iff
    (Lexer.between.read cs = ts ∧ (Lexer.between.after cs).isQuoted = false)
    ⟨fun h => ⟨h.1, h.2⟩, fun h => ⟨h.1, h.2⟩⟩

namespace Lexes

open Lexeme

variable {a b : List Char} {x y : List Lexeme}

lemma append (ha : Lexes a x) (hb : Lexes b y) (hapart : Lexer.isApart b) :
    Lexes (a ++ b) (x ++ y) := by
  refine ⟨?_, ?_⟩
  · rw [Lexer.read_append ha.isQuoted hapart, ha.read, hb.read]
  · rw [Lexer.after_append, Lexer.after_of_isApart ha.isQuoted hapart, hb.isQuoted]

lemma append_of_between (ha : Lexes a x) (hend : Lexer.between.after a = .between)
    (hb : Lexes b y) : Lexes (a ++ b) (x ++ y) := by
  refine ⟨?_, ?_⟩
  · rw [Lexer.read_append_of_between hend, ha.read, hb.read]
  · rw [Lexer.after_append, hend, hb.isQuoted]

lemma word {w : List Char} (hne : w ≠ []) (hw : ∀ c ∈ w, isWordChar c) : Lexes w [.word w] := by
  obtain ⟨hread, hafter⟩ := Lexer.read_word hne hw
  exact ⟨hread, by rw [hafter]; rfl⟩

lemma quoted (s : String) : Lexes (Constant.quoted s).toList [.text s.toList] := by
  obtain ⟨hread, hafter⟩ := Lexer.read_quoted s
  exact ⟨hread, by rw [hafter]; rfl⟩

end Lexes

end StreamQuery
