import Mathlib.Data.List.Basic
import StreamQuery.Proofs.Lexemes

/-!
# Layouts

A text that is put together from others has a layout: characters, and holes for the other texts.
`Watch` looks for the lexemes of a comparison with NULL: `=`, a blank and the word NULL.

A layout is hushed if its own characters make no such comparison, wherever its holes are filled with
texts that end their literals.  Then a comparison with NULL stands in one of these texts, or the
text in a hole behind `=` and a blank begins with NULL (`Layout.comparesNull_fill`).
-/

namespace StreamQuery

open List

/-! ## Comparisons with NULL -/

/-- A comparison with NULL. -/
def nullComparison : List Lexeme :=
  [.mark '=', .blank, .word "NULL".toList]

/-- How much of a comparison with NULL has been read. -/
inductive Watch where
  /-- Nothing. -/
  | idle
  /-- The sign. -/
  | sign
  /-- The sign and a blank. -/
  | ready
deriving DecidableEq, Inhabited

namespace Watch

/-- One lexeme. -/
def step (w : Watch) (t : Lexeme) : Watch :=
  if t = .mark '=' then .sign
  else if w = .sign ∧ t = .blank then .ready
  else .idle

/-- The lexemes of a text, one after the other. -/
def after (w : Watch) (ts : List Lexeme) : Watch :=
  ts.foldl step w

/-- True when a comparison with NULL is completed. -/
def sees : Watch → List Lexeme → Bool
  | _, [] => false
  | w, t :: rest => (w == .ready && t == .word "NULL".toList) || sees (w.step t) rest

variable {w : Watch} {a b : List Lexeme}

@[simp] lemma after_nil (w : Watch) : w.after [] = w := rfl

@[simp] lemma after_cons (w : Watch) (t : Lexeme) (ts : List Lexeme) :
    w.after (t :: ts) = (w.step t).after ts := rfl

@[simp] lemma after_append (w : Watch) (a b : List Lexeme) :
    w.after (a ++ b) = (w.after a).after b :=
  foldl_append

@[simp] lemma sees_nil (w : Watch) : w.sees [] = false := rfl

@[simp] lemma sees_cons (w : Watch) (t : Lexeme) (ts : List Lexeme) :
    w.sees (t :: ts) = ((w == .ready && t == .word "NULL".toList) || (w.step t).sees ts) := rfl

/-- A comparison is seen in the first list, or in the second behind it. -/
lemma sees_append (w : Watch) (a b : List Lexeme) :
    w.sees (a ++ b) = (w.sees a || (w.after a).sees b) := by
  induction a generalizing w with
  | nil => rfl
  | cons t a ih => rw [cons_append, sees_cons, sees_cons, ih, after_cons, Bool.or_assoc]

/-- What is missing of a comparison with NULL. -/
def missing : Watch → List Lexeme
  | .idle => nullComparison
  | .sign => [.blank, .word "NULL".toList]
  | .ready => [.word "NULL".toList]

/-- A comparison is seen if it stands there, or if what is missing comes first. -/
lemma sees_iff (w : Watch) (ts : List Lexeme) :
    w.sees ts ↔ nullComparison <:+: ts ∨ w.missing <+: ts := by
  induction ts generalizing w with
  | nil => cases w <;> simp [missing, nullComparison]
  | cons t ts ih =>
    have hfirst : nullComparison <+: t :: ts ↔ t = .mark '=' ∧ sign.missing <+: ts := by
      rw [nullComparison, cons_prefix_cons, eq_comm]
      rfl
    have hsecond : sign.missing <+: t :: ts ↔ t = .blank ∧ ready.missing <+: ts := by
      rw [missing, cons_prefix_cons, eq_comm]
      rfl
    have hthird : ready.missing <+: t :: ts ↔ t = .word "NULL".toList := by
      rw [missing, cons_prefix_cons, eq_comm]
      simp
    have hwhole : nullComparison <+: ts → nullComparison <:+: ts := List.IsPrefix.isInfix
    have hidle : idle.missing = nullComparison := rfl
    rw [sees_cons, Bool.or_eq_true, ih, infix_cons_iff, hfirst, Bool.and_eq_true, beq_iff_eq,
      beq_iff_eq]
    clear ih
    by_cases hsign : t = .mark '='
    · have hword : t ≠ .word "NULL".toList := by rw [hsign]; decide
      have hblank : t ≠ .blank := by rw [hsign]; decide
      have hstep : w.step t = .sign := if_pos hsign
      rw [hstep]
      cases w with
      | idle => rw [hidle, hfirst]; grind
      | sign => rw [hsecond]; grind
      | ready => rw [hthird]; grind
    · cases w with
      | idle =>
        have hstep : idle.step t = .idle := by simp [step, hsign]
        rw [hstep, hidle, hfirst]
        grind
      | sign =>
        rw [hsecond]
        by_cases hblank : t = .blank
        · have hstep : sign.step t = .ready := by simp [step, hblank]
          rw [hstep]
          grind
        · have hstep : sign.step t = .idle := by simp [step, hsign, hblank]
          rw [hstep, hidle]
          grind
      | ready =>
        have hstep : ready.step t = .idle := by simp [step, hsign]
        rw [hstep, hidle, hthird]
        grind

/-- From the start, a comparison is seen exactly if it stands there. -/
lemma sees_idle_iff (ts : List Lexeme) : idle.sees ts ↔ nullComparison <:+: ts := by
  rw [sees_iff]
  constructor
  · rintro (h | h)
    · exact h
    · exact h.isInfix
  · exact .inl

end Watch

/-! ## Hushed texts -/

/-- True when a text compares something with NULL. -/
def comparesNull (cs : List Char) : Bool :=
  Watch.idle.sees (Lexer.between.read cs)

/-- True when a text begins with the word NULL. -/
def startsNull (cs : List Char) : Bool :=
  (Lexer.between.read cs).head? == some (.word "NULL".toList)

/-- A text that ends its literals, and not with the sign of a comparison. -/
structure IsHushed (cs : List Char) : Prop where
  closed : (Lexer.between.after cs).isQuoted = false
  /-- The last lexeme is no sign of a comparison. -/
  last : Watch.idle.after (Lexer.between.read cs) ≠ .sign

/-- It can be checked whether a text is hushed. -/
instance (cs : List Char) : Decidable (IsHushed cs) :=
  decidable_of_iff ((Lexer.between.after cs).isQuoted = false ∧
      Watch.idle.after (Lexer.between.read cs) ≠ .sign)
    ⟨fun h => ⟨h.1, h.2⟩, fun h => ⟨h.1, h.2⟩⟩

/-- A hushed text that compares nothing with NULL. -/
def IsQuiet (cs : List Char) : Prop :=
  IsHushed cs ∧ comparesNull cs = false

/-- It can be checked whether a text is quiet. -/
instance (cs : List Char) : Decidable (IsQuiet cs) :=
  inferInstanceAs (Decidable (_ ∧ _))

namespace Watch

variable {w : Watch} {ts : List Lexeme}

/-- A step is as from the start, except behind the sign. -/
lemma step_of_ne (hw : w ≠ .sign) (t : Lexeme) : w.step t = idle.step t := by
  simp [step, hw]

/-- What does not end with the sign from the start does not from `w`. -/
lemma after_of_ne (hw : w ≠ .sign) (hts : idle.after ts ≠ .sign) : w.after ts ≠ .sign := by
  cases ts with
  | nil => exact hw
  | cons t ts =>
    rw [after_cons, step_of_ne hw]
    exact hts

/-- Behind the sign and a blank, a comparison may be completed at once. -/
lemma sees_ready (ts : List Lexeme) :
    ready.sees ts = (ts.head? == some (.word "NULL".toList) || idle.sees ts) := by
  cases ts with
  | nil => rfl
  | cons t ts =>
    have hidle : (idle == ready) = false := by decide
    rw [sees_cons, sees_cons, step_of_ne (by decide), hidle]
    simp

/-- Before any other word, a comparison is seen as from the start. -/
lemma sees_of_ne (hw : w ≠ .sign) (hts : ts.head? ≠ some (.word "NULL".toList)) :
    w.sees ts = idle.sees ts := by
  cases w with
  | idle => rfl
  | sign => exact absurd rfl hw
  | ready => rw [sees_ready, beq_eq_false_iff_ne.2 hts, Bool.false_or]

end Watch

/-! ## Layouts -/

/-- A piece of a layout. -/
inductive Span (H : Type) where
  | char (c : Char)
  /-- A quiet text. -/
  | leaf (s : String)
  /-- The place of another text. -/
  | hole (h : H)

namespace Span

variable {H K : Type}

/-- The text of a piece, with the given texts in the holes. -/
def fill (text : H → List Char) : Span H → List Char
  | .char c => [c]
  | .leaf s => s.toList
  | .hole h => text h

/-- The hole that a piece is. -/
def holes : Span H → List H
  | .hole h => [h]
  | _ => []

/-- The quiet text that a piece is. -/
def leaves : Span H → List String
  | .leaf s => [s]
  | _ => []

/-- The same piece with another hole. -/
def rename (f : H → K) : Span H → Span K
  | .char c => .char c
  | .leaf s => .leaf s
  | .hole h => .hole (f h)

end Span

/-- Where a layout is being read. -/
structure Scan where
  lexer : Lexer := .between
  /-- How much of a comparison with NULL has been read. -/
  watch : Watch := .idle
  behind : Bool := false

namespace Scan

variable {H : Type}

/-- Behind a text. -/
def afterText : Scan := { behind := true }

/-- Behind a piece. -/
def next (s : Scan) : Span H → Scan
  | .char c => ⟨(s.lexer.step c).1, s.watch.after (s.lexer.step c).2, false⟩
  | _ => afterText

/-- True where another text can begin. -/
def isOpen (s : Scan) : Bool :=
  s.lexer == .between && !s.behind

/-- True where a piece can follow.  A character must be apart from a text in front of it, and
complete no comparison with NULL. -/
def allows (s : Scan) : Span H → Bool
  | .char c => (!s.behind || Lexeme.isDelimiter c) && !s.watch.sees (s.lexer.step c).2
  | .leaf _ => s.isOpen && s.watch == .idle
  | .hole _ => s.isOpen && s.watch != .sign

/-- The hole that a piece is, behind a sign of comparison and a blank. -/
def compared (s : Scan) (span : Span H) : List H :=
  if s.watch = .ready then span.holes else []

/-- True where a layout can end. -/
def isDone (s : Scan) : Bool :=
  !s.lexer.isQuoted && !s.watch.sees s.lexer.flush && s.watch.after s.lexer.flush != .sign

end Scan

/-- Characters, and the places of other texts. -/
abbrev Layout (H : Type) := List (Span H)

namespace Layout

variable {H : Type}

/-- The characters of a text. -/
def words (s : String) : Layout H :=
  s.toList.map .char

/-- The text of a layout with the given texts in its holes. -/
def fill (text : H → List Char) (L : Layout H) : List Char :=
  L.flatMap (Span.fill text)

/-- The holes of a layout. -/
def holes (L : Layout H) : List H :=
  L.flatMap Span.holes

/-- The leaves of a layout. -/
def leaves (L : Layout H) : List String :=
  L.flatMap Span.leaves

/-- True when the texts in a layout are apart from its characters, and these compare nothing with
NULL. -/
def isHushed (s : Scan) : Layout H → Bool
  | [] => s.isDone
  | span :: rest => s.allows span && isHushed (s.next span) rest

/-- The holes behind a sign of comparison and a blank. -/
def compared (s : Scan) : Layout H → List H
  | [] => []
  | span :: rest => s.compared span ++ compared (s.next span) rest

@[simp] lemma fill_append (text : H → List Char) (L M : Layout H) :
    fill text (L ++ M) = L.fill text ++ M.fill text :=
  flatMap_append

@[simp] lemma holes_append (L M : Layout H) : holes (L ++ M) = L.holes ++ M.holes :=
  flatMap_append

@[simp] lemma leaves_append (L M : Layout H) : leaves (L ++ M) = L.leaves ++ M.leaves :=
  flatMap_append

/-- Characters are filled as they are. -/
@[simp] lemma fill_words (text : H → List Char) (s : String) : fill text (words s) = s.toList := by
  simp [fill, words, flatMap_map, Span.fill]

variable {K : Type} (s : String)

@[simp] lemma holes_words : holes (words s : Layout H) = [] := by
  simp [holes, words, Span.holes]

@[simp] lemma leaves_words : leaves (words s : Layout H) = [] := by
  simp [leaves, words, Span.leaves]

@[simp] lemma fill_nil (text : H → List Char) : fill text [] = [] := rfl

@[simp] lemma holes_nil : holes ([] : Layout H) = [] := rfl

@[simp] lemma leaves_nil : leaves ([] : Layout H) = [] := rfl

@[simp] lemma fill_hole (text : H → List Char) (h : H) (L : Layout H) :
    fill text (.hole h :: L) = text h ++ L.fill text := rfl

@[simp] lemma holes_hole (h : H) (L : Layout H) : holes (.hole h :: L) = h :: L.holes := rfl

@[simp] lemma leaves_hole (h : H) (L : Layout H) : leaves (.hole h :: L) = L.leaves := rfl

@[simp] lemma fill_leaf (text : H → List Char) (s : String) (L : Layout H) :
    fill text (.leaf s :: L) = s.toList ++ L.fill text := rfl

@[simp] lemma holes_leaf (L : Layout H) : holes (.leaf s :: L) = L.holes := rfl

@[simp] lemma leaves_leaf (L : Layout H) : leaves (.leaf s :: L) = s :: L.leaves := rfl

/-! ### Layouts that are put together -/

/-- A hushed layout, with its holes behind a sign of comparison and a blank. -/
structure Hushed (s : Scan) (L : Layout H) (cs : List H) : Prop where
  isHushed : L.isHushed s = true
  compared : L.compared s = cs

/-- It can be checked whether a layout is hushed. -/
instance [DecidableEq H] (s : Scan) (L : Layout H) (cs : List H) : Decidable (Hushed s L cs) :=
  decidable_of_iff (L.isHushed s = true ∧ L.compared s = cs)
    ⟨fun h => ⟨h.1, h.2⟩, fun h => ⟨h.1, h.2⟩⟩

namespace Hushed

variable {s : Scan} {L M : Layout H} {as bs : List H}

/-- A hushed layout, piece by piece. -/
lemma cons_iff {span : Span H} :
    Hushed s (span :: L) as ↔ s.allows span ∧
      ∃ bs, Hushed (s.next span) L bs ∧ s.compared span ++ bs = as := by
  constructor
  · rintro ⟨hL, rfl⟩
    rw [Layout.isHushed, Bool.and_eq_true] at hL
    exact ⟨hL.1, _, ⟨hL.2, rfl⟩, rfl⟩
  · rintro ⟨hspan, _, ⟨hL, rfl⟩, rfl⟩
    refine ⟨?_, rfl⟩
    rw [Layout.isHushed, hspan, hL]
    rfl

/-- A character that ends words is read behind a text like anywhere else. -/
lemma next_of_isDone (hs : s.isDone) {c : Char} (hc : Lexeme.isDelimiter c) :
    s.allows (.char c : Span H) ∧
      s.next (.char c : Span H) = Scan.afterText.next (.char c : Span H) := by
  simp only [Scan.isDone, Bool.and_eq_true, Bool.not_eq_true', bne_iff_ne] at hs
  obtain ⟨⟨hquoted, hsees⟩, hlast⟩ := hs
  have hstep := Lexer.step_delimiter hquoted hc
  have hword : Lexeme.ofDelimiter c ≠ .word "NULL".toList := by
    unfold Lexeme.ofDelimiter
    split <;> exact fun h => by cases h
  refine ⟨?_, ?_⟩
  · rw [Scan.allows, hstep, Watch.sees_append, hsees, Watch.sees_cons,
      beq_eq_false_iff_ne.2 hword, hc]
    simp
  · rw [Scan.next, hstep, Scan.next, Lexer.step_delimiter rfl hc, Watch.after_append,
      Watch.after_cons, Watch.step_of_ne hlast]
    rfl

/-- What is hushed behind a text is hushed where one can end. -/
lemma of_isDone (hs : s.isDone) (hM : Hushed .afterText M bs) : Hushed s M bs := by
  cases M with
  | nil => exact ⟨hs, hM.compared⟩
  | cons span M =>
    obtain ⟨hspan, cs, hrest, rfl⟩ := cons_iff.1 hM
    cases span with
    | char c =>
      have hc : Lexeme.isDelimiter c := by
        simp only [Scan.allows, Scan.afterText, Bool.and_eq_true] at hspan
        exact hspan.1
      obtain ⟨hallows, hnext⟩ := next_of_isDone hs hc
      refine cons_iff.2 ⟨hallows, cs, hnext ▸ hrest, ?_⟩
      simp [Scan.compared, Span.holes]
    | leaf t => cases hspan
    | hole h => cases hspan

/-- Hushed layouts behind each other are hushed. -/
lemma append (hL : Hushed s L as) (hM : Hushed .afterText M bs) : Hushed s (L ++ M) (as ++ bs) := by
  induction L generalizing s as with
  | nil =>
    obtain ⟨hdone, rfl⟩ := hL
    exact of_isDone hdone hM
  | cons span L ih =>
    obtain ⟨hspan, cs, hrest, rfl⟩ := cons_iff.1 hL
    exact cons_iff.2 ⟨hspan, cs ++ bs, ih hrest, (append_assoc ..).symm⟩

end Hushed

/-- Layouts with a text between them. -/
def joined (sep : String) : List (Layout H) → Layout H
  | [] => []
  | L :: Ls => L ++ Ls.flatMap fun M => words sep ++ M

/-- A text between layouts behind which another text can begin. -/
def Separates (H : Type) (sep : String) : Prop :=
  ∀ (M : Layout H) (cs : List H), Hushed {} M cs → Hushed .afterText (words sep ++ M) cs

/-- Hushed layouts with a text between them make one. -/
lemma Hushed.joined {sep : String} (hsep : Separates H sep) {Ls : List (Layout H)}
    (hLs : ∀ L ∈ Ls, Layout.isHushed {} L) :
    Hushed {} (Layout.joined sep Ls) (Ls.flatMap (Layout.compared {})) := by
  cases Ls with
  | nil => exact ⟨rfl, rfl⟩
  | cons L Ls =>
    rw [forall_mem_cons] at hLs
    obtain ⟨hL, hLs⟩ := hLs
    refine Hushed.append ⟨hL, rfl⟩ ?_
    induction Ls with
    | nil => exact ⟨rfl, rfl⟩
    | cons M Ls ih =>
      rw [forall_mem_cons] at hLs
      exact (hsep M _ ⟨hLs.1, rfl⟩).append (ih hLs.2)

/-- The holes of joined layouts are those of each. -/
@[simp] lemma holes_joined (sep : String) (Ls : List (Layout H)) :
    holes (joined sep Ls) = Ls.flatMap holes := by
  cases Ls with
  | nil => rfl
  | cons L Ls =>
    rw [joined, holes_append, flatMap_cons]
    congr 1
    induction Ls with
    | nil => rfl
    | cons M Ls ih => simp [ih]

/-- The leaves of joined layouts are those of each. -/
@[simp] lemma leaves_joined (sep : String) (Ls : List (Layout H)) :
    leaves (joined sep Ls) = Ls.flatMap leaves := by
  cases Ls with
  | nil => rfl
  | cons L Ls =>
    rw [joined, leaves_append, flatMap_cons]
    congr 1
    induction Ls with
    | nil => rfl
    | cons M Ls ih => simp [ih]

@[simp] lemma map_rename_words (f : H → K) (s : String) :
    (words s : Layout H).map (Span.rename f) = words s := by
  simp [words, Span.rename]

/-- A layout stays hushed under a renaming of its holes. -/
lemma Hushed.rename (f : H → K) {s : Scan} {L : Layout H} {cs : List H} (h : Hushed s L cs) :
    Hushed s (L.map (Span.rename f)) (cs.map f) := by
  induction L generalizing s cs with
  | nil =>
    obtain ⟨hdone, rfl⟩ := h
    exact ⟨hdone, rfl⟩
  | cons span L ih =>
    obtain ⟨hspan, bs, hrest, rfl⟩ := cons_iff.1 h
    have hallows : s.allows (span.rename f) = s.allows span := by cases span <;> rfl
    have hnext : s.next (span.rename f) = s.next span := by cases span <;> rfl
    refine cons_iff.2 ⟨hallows.trans hspan, bs.map f, hnext ▸ ih hrest, ?_⟩
    rw [map_append]
    congr 1
    unfold Scan.compared
    split
    · cases span <;> rfl
    · rfl

lemma holes_rename (f : H → K) (L : Layout H) : holes (L.map (Span.rename f)) = L.holes.map f := by
  rw [holes, flatMap_map, holes, map_flatMap]
  exact flatMap_congr fun span _ => by cases span <;> rfl

lemma leaves_rename (f : H → K) (L : Layout H) : leaves (L.map (Span.rename f)) = L.leaves := by
  rw [leaves, flatMap_map, leaves]
  exact flatMap_congr fun span _ => by cases span <;> rfl

/-- A renamed layout is filled through the new names. -/
lemma fill_rename (f : H → K) (text : K → List Char) (L : Layout H) :
    fill text (L.map (Span.rename f)) = L.fill (text ∘ f) := by
  rw [fill, flatMap_map]
  exact flatMap_congr fun span _ => by cases span <;> rfl

/-- Only the texts in the holes matter. -/
lemma fill_congr {text text' : H → List Char} {L : Layout H} (h : ∀ x ∈ L.holes, text x = text' x) :
    L.fill text = L.fill text' := by
  refine flatMap_congr fun span hspan => ?_
  cases span with
  | char c => rfl
  | leaf s => rfl
  | hole x => exact h x (mem_flatMap.2 ⟨_, hspan, mem_singleton_self x⟩)

/-- The text in a hole stands in the filled layout. -/
lemma infix_fill {L : Layout H} {x : H} (hx : x ∈ L.holes) (text : H → List Char) :
    text x <:+: L.fill text := by
  obtain ⟨span, hspan, hhere⟩ := mem_flatMap.1 hx
  obtain ⟨before, after, rfl⟩ := append_of_mem hspan
  cases span with
  | hole y =>
    rw [mem_singleton.1 hhere]
    exact ⟨fill text before, fill text after, by simp⟩
  | char c => cases hhere
  | leaf s => cases hhere

/-! ### Filled layouts -/

section

variable {text : H → List Char}

/-- What is read of a text that is put behind others. -/
structure Reads (s : Scan) (cs : List Char) (compares : Prop) : Prop where
  closed : (s.lexer.after cs).isQuoted = false
  last : s.watch.after (s.lexer.read cs) ≠ .sign
  sees : s.watch.sees (s.lexer.read cs) = true ↔ compares
  apart : s.behind = true → Lexer.isApart cs = true

/-- A text that is apart does not begin with NULL. -/
lemma head?_read_ne_of_isApart {cs : List Char} (h : Lexer.isApart cs) :
    (Lexer.between.read cs).head? ≠ some (.word "NULL".toList) := by
  cases cs with
  | nil => exact (Option.some_ne_none _).symm
  | cons c cs =>
    rw [Lexer.read_cons, Lexer.step_delimiter rfl h]
    simp only [Lexer.flush, nil_append, singleton_append, head?_cons, Lexeme.ofDelimiter]
    split <;> exact fun hword => by cases hword

/-- A text in a layout is read like itself, and what follows it anew. -/
lemma Reads.append {s : Scan} {cs rest : List Char} {compares : Prop} (hopen : s.isOpen)
    (hwatch : s.watch ≠ .sign) (hcs : IsHushed cs) (hrest : Reads .afterText rest compares) :
    Reads s (cs ++ rest)
      ((s.watch = .ready ∧ startsNull cs) ∨ comparesNull cs ∨ compares) := by
  simp only [Scan.isOpen, Bool.and_eq_true, beq_iff_eq, Bool.not_eq_true'] at hopen
  obtain ⟨hlexer, hbehind⟩ := hopen
  have hapart := hrest.apart rfl
  have hread : s.lexer.read (cs ++ rest) = Lexer.between.read cs ++ Lexer.between.read rest := by
    rw [hlexer, Lexer.read_append hcs.closed hapart]
  have hmid : s.watch.after (Lexer.between.read cs) ≠ .sign := Watch.after_of_ne hwatch hcs.last
  have hhead := head?_read_ne_of_isApart hapart
  refine ⟨?_, ?_, ?_, fun h => ?_⟩
  · rw [hlexer, Lexer.after_append, Lexer.after_of_isApart hcs.closed hapart]
    exact hrest.closed
  · rw [hread, Watch.after_append]
    exact Watch.after_of_ne hmid hrest.last
  · have htail : Watch.idle.sees (Lexer.between.read rest) ↔ compares := hrest.sees
    rw [hread, Watch.sees_append, Watch.sees_of_ne hmid hhead, Bool.or_eq_true, htail]
    unfold startsNull comparesNull
    cases hs : s.watch with
    | idle => simp
    | sign => exact absurd hs hwatch
    | ready =>
      rw [Watch.sees_ready]
      simp [or_assoc]
  · rw [hbehind] at h
    cases h

/-- A hushed layout with hushed texts in it compares something with NULL if one of these texts does,
or if one of them begins with NULL behind a sign of comparison. -/
lemma reads_fill {s : Scan} {L : Layout H} (hL : L.isHushed s)
    (hleaves : ∀ t ∈ L.leaves, IsQuiet t.toList) (hholes : ∀ h ∈ L.holes, IsHushed (text h)) :
    Reads s (L.fill text) ((∃ h ∈ L.holes, comparesNull (text h)) ∨
      ∃ h ∈ L.compared s, startsNull (text h)) := by
  induction L generalizing s with
  | nil =>
    simp only [isHushed, Scan.isDone, Bool.and_eq_true, Bool.not_eq_true', bne_iff_ne] at hL
    refine ⟨hL.1.1, hL.2, ?_, fun _ => rfl⟩
    have hread : s.lexer.read (fill text []) = s.lexer.flush := rfl
    rw [hread, hL.1.2]
    simp [holes, compared]
  | cons span L ih =>
    rw [isHushed, Bool.and_eq_true] at hL
    obtain ⟨hspan, hrest⟩ := hL
    cases span with
    | char c =>
      simp only [Scan.allows, Bool.and_eq_true, Bool.or_eq_true, Bool.not_eq_true'] at hspan
      obtain ⟨hbehind, hsees⟩ := hspan
      obtain ⟨hclosed, hlast, hcompares, -⟩ := ih hrest hleaves hholes
      have hfill : fill text (.char c :: L) = c :: fill text L := rfl
      have hcompared : compared s (.char c :: L) = compared (s.next (.char c : Span H)) L := by
        simp [compared, Scan.compared, Span.holes]
      rw [hfill, hcompared]
      refine ⟨hclosed, ?_, ?_, fun h => ?_⟩
      · rw [Lexer.read_cons, Watch.after_append]
        exact hlast
      · rw [Lexer.read_cons, Watch.sees_append, hsees, Bool.false_or]
        exact hcompares
      · rw [h] at hbehind
        exact hbehind.resolve_left (by decide)
    | leaf t =>
      simp only [Scan.allows, Bool.and_eq_true, beq_iff_eq] at hspan
      obtain ⟨hopen, hwatch⟩ := hspan
      obtain ⟨⟨hhushed, hcompares⟩, hleaves⟩ := forall_mem_cons.1 hleaves
      have hreads := (ih hrest hleaves hholes).append hopen (by rw [hwatch]; decide) hhushed
      have hcompared : compared s (.leaf t :: L) = compared (s.next (.leaf t : Span H)) L := by
        simp [compared, Scan.compared, Span.holes]
      rw [hwatch, hcompares] at hreads
      rw [hcompared, holes_leaf, fill_leaf]
      simpa using hreads
    | hole h =>
      simp only [Scan.allows, Bool.and_eq_true, bne_iff_ne] at hspan
      obtain ⟨hopen, hwatch⟩ := hspan
      obtain ⟨hhushed, hholes⟩ := forall_mem_cons.1 hholes
      have hreads := (ih hrest hleaves hholes).append hopen hwatch hhushed
      have hiff : ((s.watch = .ready ∧ startsNull (text h)) ∨ comparesNull (text h) ∨
            (∃ h' ∈ holes L, comparesNull (text h')) ∨
              ∃ h' ∈ compared .afterText L, startsNull (text h')) ↔
          ((∃ h' ∈ holes (.hole h :: L), comparesNull (text h')) ∨
            ∃ h' ∈ compared s (.hole h :: L), startsNull (text h')) := by
        have hcompared : compared s (.hole h :: L) =
            (if s.watch = .ready then [h] else []) ++ compared .afterText L := rfl
        rw [holes_hole, hcompared]
        by_cases hready : s.watch = .ready
        · simp only [hready, if_true, true_and, singleton_append, mem_cons,
            exists_eq_or_imp, or_assoc, or_left_comm]
        · simp only [hready, if_false, false_and, false_or, nil_append, mem_cons,
            exists_eq_or_imp, or_assoc]
      rw [← hiff]
      exact hreads

/-- A hushed layout with hushed texts in it is hushed. -/
lemma isHushed_fill {L : Layout H} (hL : L.isHushed {}) (hleaves : ∀ t ∈ L.leaves, IsQuiet t.toList)
    (hholes : ∀ h ∈ L.holes, IsHushed (text h)) : IsHushed (L.fill text) :=
  have hreads := reads_fill hL hleaves hholes
  ⟨hreads.closed, hreads.last⟩

/-- The same for a text: the sign of comparison may have a blank behind it. -/
theorem comparesNull_fill {L : Layout H} (hL : L.isHushed {})
    (hleaves : ∀ t ∈ L.leaves, IsQuiet t.toList) (hholes : ∀ h ∈ L.holes, IsHushed (text h)) :
    comparesNull (L.fill text) ↔ (∃ h ∈ L.holes, comparesNull (text h)) ∨
      ∃ h ∈ L.compared {}, startsNull (text h) :=
  (reads_fill hL hleaves hholes).sees

end

end Layout

end StreamQuery
