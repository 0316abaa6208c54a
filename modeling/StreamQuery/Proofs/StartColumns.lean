import StreamQuery.Proofs.StartFinds

/-!
# Window starts in SELECT lists

In a hopping statement the columns that are the window start are taken out, and under `EndTs` they
become the end of the window if the projection asks for its start.  `Listing` is a SELECT list with
what follows it, and `kept` the text that is meant.

All parts are edited one by one, since no find goes beyond a separator.  A part that is to stay does
so exactly if nothing is found in it, and else gets lighter (`dropChars_keptOrLighter`), so the
weight of the whole text shows whether all of them have stayed.
-/

namespace StreamQuery.WindowStart

open Text List
open Placement (fromLine)

variable {z rest s : List Char}

/-! ## The edits at separators -/

/-- The end of the window as a column. -/
def windowEnd : List Char :=
  "WINDOWEND AS EndTs".toList

/-- Nothing is found in the end of the window. -/
lemma passed_windowEnd : Passed windowEnd := by
  have hend : Passed "END AS EndTs".toList := passed_of_inert (by decide)
  have hinner : Passed "INDO".toList := passed_of_inert (by decide)
  have hword : Passed ('W' :: "END AS EndTs".toList) := hend.cons fun _ => ⟨rfl, rfl⟩
  exact (hinner.append hword).cons fun _ => ⟨rfl, rfl⟩

/-- No window start begins in a separator. -/
lemma dropFolded?_separator (hz : z <:+ separator) (hne : z ≠ []) (rest : List Char) :
    dropFolded? "WINDOWSTART".toList (z ++ rest) = none := by
  rcases suffix_cons_iff.1 hz with rfl | hz
  · rfl
  · rcases suffix_cons_iff.1 hz with rfl | hz
    · rfl
    · exact absurd (suffix_nil.1 hz) hne

/-- A separator before a column does not dangle. -/
lemma afterDangling?_separator (h : rest.head?.any isBlank = false) :
    afterDangling? (separator ++ rest) = none := by
  have hcomma : separator ++ rest = ',' :: ' ' :: rest := rfl
  rw [hcomma, afterDangling?_comma, (Placement.span_space h).1]
  rfl

lemma dropWhile_isSpace (h : rest.head?.any isSpace = false) : rest.dropWhile isSpace = rest := by
  cases rest with
  | nil => rfl
  | cons c rest => exact dropWhile_cons_of_neg (Bool.eq_false_iff.1 h)

lemma any_isSpace_of_isBlank (h : s.head?.any isBlank = false) : s.head?.any isSpace = false := by
  cases s with
  | nil => rfl
  | cons c s => exact isSpace_of_not_blank h

/-- Behind a separator the next column begins. -/
lemma afterComma_separator (h : rest.head?.any isSpace = false) :
    afterComma (separator ++ rest) = rest := by
  have hdrop : (' ' :: rest).dropWhile isSpace = rest := by
    rw [dropWhile_cons_of_pos (by decide), dropWhile_isSpace h]
  exact hdrop

lemma suffix_afterComma (h : rest.head?.any isSpace = false) (u : List Char) :
    rest <:+ afterComma (u ++ (separator ++ rest)) := by
  have hcomma : separator ++ rest = ',' :: ' ' :: rest := rfl
  have hbehind : ∀ v : List Char, rest <:+ v ++ (separator ++ rest) := fun v =>
    (suffix_append ..).trans (suffix_append ..)
  have hspace : isSpace ',' = false := by decide
  unfold afterComma
  rw [hcomma, dropWhile_append_cons hspace, ← hcomma]
  split
  · next later hlater =>
    cases hu : u.dropWhile isSpace with
    | nil =>
      rw [hu, hcomma] at hlater
      have hdrop : later.dropWhile isSpace = rest := by
        rw [← (List.cons.inj hlater).2, dropWhile_cons_of_pos (by decide), dropWhile_isSpace h]
      exact ⟨[], hdrop.symm⟩
    | cons c v =>
      rw [hu] at hlater
      rw [← (List.cons.inj hlater).2, hcomma]
      change rest <:+ (v ++ ',' :: ' ' :: rest).dropWhile isSpace
      rw [dropWhile_append_cons hspace]
      exact hbehind _
  · exact hbehind _

/-- A column before a separator is taken out with it or without. -/
lemma strip_separator (h : rest.head?.any isSpace = false) (p : List Char) :
    ∃ p', strip (p ++ (separator ++ rest)) = p' ++ strip rest ∧
      KeptOrLighter 3 (Calm afterColumn? p []) p' (p ++ separator) := by
  have hcolumn : ∀ y, afterColumn? (y ++ (separator ++ rest)) =
      (afterStart? y).map fun u => afterComma (u ++ (separator ++ rest)) := by
    intro y
    have hstart := afterStart?_haltsAt (c := ',') (by decide) y (' ' :: rest)
    rw [afterColumn?_eq, show separator ++ rest = ',' :: ' ' :: rest from rfl, hstart,
      Option.map_map]
    rfl
  have hnone : ∀ z, z <:+ separator → z ≠ [] → afterColumn? (z ++ rest) = none := by
    intro z hz hne
    rw [afterColumn?, dropFolded?_separator hz hne]
    rfl
  have hstop : ∀ z after, z <:+ p ++ separator → z ≠ [] →
      afterColumn? (z ++ rest) = some after → rest <:+ after := by
    intro z after hz hne hfound
    rcases suffix_append_cases hz with hz | ⟨y, -, -, rfl⟩
    · rw [hnone z hz hne] at hfound
      cases hfound
    · rw [append_assoc, hcolumn] at hfound
      obtain ⟨u, -, rfl⟩ := Option.map_eq_some_iff.1 hfound
      exact suffix_afterComma h u
  obtain ⟨p', htext, hkept⟩ := substitute_part afterColumn?_consumes (by decide) hstop
  refine ⟨p', by rw [← append_assoc]; exact htext, hkept.congr ⟨fun hcalm => ?_, ?_⟩⟩
  · intro z hz hne
    have hfound := hcalm (z ++ separator) (by
      obtain ⟨x, rfl⟩ := hz
      exact ⟨x, (append_assoc ..).symm⟩) (by simp [hne])
    rw [append_assoc, hcolumn, Option.map_eq_none_iff] at hfound
    rw [append_nil, afterColumn?_eq, hfound]
    rfl
  · intro hcalm z hz hne
    rcases suffix_append_cases hz with hz | ⟨y, hy, hyne, rfl⟩
    · exact hnone z hz hne
    · have hfound := hcalm y hy hyne
      rw [append_nil, afterColumn?_eq, Option.map_eq_none_iff] at hfound
      rw [append_assoc, hcolumn, hfound]
      rfl

/-- Window starts are turned into window ends, or not. -/
def turned (asks : Bool) (s : List Char) : List Char :=
  if asks then toEnd s else s

section

variable (asks : Bool)

/-- The first edit keeps a part or makes it lighter. -/
lemma turned_keptOrLighter (s : List Char) :
    KeptOrLighter 3 (asks → Calm afterEnd? s []) (turned asks s) s := by
  cases asks with
  | true =>
    have htext := substitute_keptOrLighter afterEnd?_consumes (by decide) s
    exact htext.congr ⟨fun h _ => h, fun h => h rfl⟩
  | false => exact .inl ⟨fun h => absurd h Bool.false_ne_true, rfl⟩

/-- The first edit passes over the line of the source. -/
lemma turned_fromLine (b : List Char) :
    turned asks (fromLine ++ b) = fromLine ++ turned asks b := by
  cases asks with
  | true => exact passed_fromLine.toEnd b
  | false => rfl

/-- It edits the parts around a separator one by one. -/
lemma turned_separator (p rest : List Char) : turned asks (p ++ (separator ++ rest)) =
    turned asks p ++ (separator ++ turned asks rest) := by
  cases asks with
  | true =>
    have hcomma : toEnd (separator ++ rest) = separator ++ toEnd rest :=
      substitute_pass fun z hz hne => by rw [afterEnd?, dropFolded?_separator hz hne]; rfl
    have hsplit : toEnd (p ++ (separator ++ rest)) = toEnd p ++ toEnd (separator ++ rest) :=
      (afterEnd?_haltsAt (c := ',') (by decide)).substitute_append rfl p (' ' :: rest)
    exact hsplit.trans (congrArg _ hcomma)
  | false => rfl

lemma turned_head {s : List Char} (h : s.head?.any isSpace = false) :
    (turned asks s).head?.any isSpace = false := by
  cases asks with
  | true =>
    cases hfound : afterEnd? s with
    | none =>
      cases s with
      | nil => rfl
      | cons c s =>
        have htext : turned true (c :: s) = c :: toEnd s := substituteFrom_unfound hfound
        rw [htext]
        exact h
    | some after =>
      have htext : turned true s = windowEnd ++ toEnd after :=
        substitute_found afterEnd?_consumes (by decide) hfound
      rw [htext]
      rfl
  | false => exact h

end

/-- What lets a part stay when window starts are turned and taken out. -/
def Still (asks : Bool) (p : List Char) : Prop :=
  (asks = true → Calm afterEnd? p []) ∧ Calm afterColumn? p []

/-- Two edits keep a part or make it lighter. -/
lemma strip_turned_part (asks : Bool) (p : List Char) :
    KeptOrLighter 3 (Still asks p) (strip (turned asks p)) p := by
  have hstrip := substitute_keptOrLighter afterColumn?_consumes (by decide) (turned asks p)
  exact (turned_keptOrLighter asks p).trans hstrip fun heq => by rw [heq]

namespace StartColumn

variable (s : StartColumn) {rest : List Char}

/-- A window start becomes the end of the window if it is asked for. -/
lemma turned_text (asks : Bool) (hrest : EndsColumn rest) : turned asks (s.text ++ rest) =
    (if asks ∧ s.IsEnd then windowEnd else s.text) ++ turned asks rest := by
  cases asks with
  | true =>
    have hfound := s.afterEnd?_text hrest.1
    by_cases hend : s.IsEnd
    · rw [if_pos ⟨rfl, hend⟩]
      rw [if_pos hend] at hfound
      exact substitute_found afterEnd?_consumes (by decide) hfound
    · rw [if_neg fun h => hend h.2]
      rw [if_neg hend] at hfound
      refine substitute_pass fun z hz _ => ?_
      by_cases hinner : z = s.text
      · rw [hinner, hfound]
      · exact (s.unfound hz hinner hrest).2
  | false => rfl

/-- A window start is taken out with its comma. -/
lemma strip_text (h : startsWord rest = false) :
    strip (s.text ++ rest) = strip (afterComma rest) := by
  have hfound : afterColumn? (s.text ++ rest) = some (afterComma rest) := by
    rw [afterColumn?_eq, s.afterStart?_text h]
    rfl
  exact substitute_found afterColumn?_consumes (by decide) hfound

end StartColumn

/-! ## SELECT lists -/

/-- A SELECT list with what follows it. -/
inductive Listing
  /-- A last column that is not the window start, with all that follows. -/
  | tail (text : List Char)
  /-- The window start as the last column, before the line of the source. -/
  | last (column : StartColumn) (behind : List Char)
  | other (text : List Char) (more : Listing)
  | start (column : StartColumn) (more : Listing)

namespace Listing

variable {l : Listing}

/-- The text of a list and what follows it. -/
def text : Listing → List Char
  | tail t => t
  | last s b => s.text ++ (fromLine ++ b)
  | other p l => p ++ (separator ++ l.text)
  | start s l => s.text ++ (separator ++ l.text)

/-- Something holds of each part that is to stay. -/
def All (q : List Char → Prop) : Listing → Prop
  | tail t => q t
  | last _ b => q (fromLine ++ b)
  | other p l => q p ∧ l.All q
  | start _ l => l.All q

/-- No column behind a separator begins with a character of a class. -/
def Apart (p : Char → Bool) : Listing → Prop
  | tail _ => True
  | last _ _ => True
  | other _ l => l.text.head?.any p = false ∧ l.Apart p
  | start _ l => l.text.head?.any p = false ∧ l.Apart p

/-- The list without the window starts, some of which are ends of the window. -/
def pending (asks : Bool) : Listing → Listing
  | tail t => tail t
  | last s b =>
    if asks = true ∧ s.IsEnd then tail (windowEnd ++ (fromLine ++ b)) else tail (fromLine ++ b)
  | other p l => other p (l.pending asks)
  | start s l =>
    if asks = true ∧ s.IsEnd then other windowEnd (l.pending asks) else l.pending asks

/-- Two edits leave the pending list, or something lighter. -/
lemma strip_turned (asks : Bool) (l : Listing) (h : l.Apart isSpace) :
    KeptOrLighter 3 (l.All (Still asks)) (strip (turned asks l.text)) (l.pending asks).text := by
  induction l with
  | tail t => exact strip_turned_part asks t
  | last s b =>
    have hline := strip_turned_part asks (fromLine ++ b)
    rw [text, s.turned_text asks (endsColumn_fromLine b), pending]
    split
    · rw [passed_windowEnd.strip]
      exact hline.append_left windowEnd
    · have hstarts : startsWord (fromLine ++ turned asks b) = false := rfl
      rw [turned_fromLine] at hline ⊢
      rw [s.strip_text hstarts]
      exact hline
  | other p l ih =>
    obtain ⟨hhead, hapart⟩ := h
    obtain ⟨p', htext, hkept⟩ := strip_separator (turned_head asks hhead) (turned asks p)
    have hturned : KeptOrLighter 3 (asks → Calm afterEnd? p []) (turned asks p ++ separator)
        (p ++ separator) := (turned_keptOrLighter asks p).append_right separator
    have hpart : KeptOrLighter 3 (Still asks p) p' (p ++ separator) :=
      hturned.trans hkept fun heq => by rw [append_cancel_right heq]
    rw [text, turned_separator, htext, pending, text, ← append_assoc]
    exact hpart.append (ih hapart)
  | start s l ih =>
    obtain ⟨hhead, hapart⟩ := h
    have hcomma := turned_separator asks [] l.text
    have hnil : turned asks [] = [] := by cases asks <;> rfl
    rw [nil_append, hnil, nil_append] at hcomma
    rw [text, s.turned_text asks (endsColumn_separator _), hcomma, pending]
    split
    · have hstrip : strip (separator ++ turned asks l.text) =
          separator ++ strip (turned asks l.text) :=
        substitute_pass fun z hz hne => by rw [afterColumn?, dropFolded?_separator hz hne]; rfl
      rw [passed_windowEnd.strip, hstrip, text]
      exact ((ih hapart).append_left separator).append_left windowEnd
    · rw [s.strip_text rfl, afterComma_separator (turned_head asks hhead)]
      exact ih hapart

/-- Nothing is left of the columns. -/
def bare (asks : Bool) : Listing → Bool
  | tail _ => false
  | last s _ => !decide (asks = true ∧ s.IsEnd)
  | other _ _ => false
  | start s l => !decide (asks = true ∧ s.IsEnd) && l.bare asks

/-- The separator before a list, if something is left of it. -/
def separated (asks : Bool) (l : Listing) : List Char :=
  if l.bare asks then [] else separator

/-- The window starts are gone or turned to its end, and all else is as it was. -/
def kept (asks : Bool) : Listing → List Char
  | tail t => t
  | last s b => (if asks = true ∧ s.IsEnd then windowEnd else []) ++ (fromLine ++ b)
  | other p l => p ++ (l.separated asks ++ l.kept asks)
  | start s l =>
    if asks = true ∧ s.IsEnd then windowEnd ++ (l.separated asks ++ l.kept asks) else l.kept asks

section

variable {asks : Bool}

variable {l : Listing}

/-- Of a bare list nothing but the line of the source is left. -/
lemma text_of_bare (h : l.bare asks) :
    ∃ b, (l.pending asks).text = fromLine ++ b ∧ l.kept asks = fromLine ++ b := by
  induction l with
  | tail t => cases h
  | last s b =>
    rw [bare, Bool.not_eq_true', decide_eq_false_iff_not] at h
    exact ⟨b, by rw [pending, if_neg h, text], by rw [kept, if_neg h, nil_append]⟩
  | other p l => cases h
  | start s l ih =>
    rw [bare, Bool.and_eq_true, Bool.not_eq_true', decide_eq_false_iff_not] at h
    obtain ⟨b, htext, hkept⟩ := ih h.2
    exact ⟨b, by rw [pending, if_neg h.1, htext], by rw [kept, if_neg h.1, hkept]⟩

lemma head_pending (h : l.Apart isBlank) (hhead : l.text.head?.any isBlank = false)
    (hbare : l.bare asks = false) : (l.pending asks).text.head?.any isBlank = false := by
  induction l with
  | tail t => exact hhead
  | last s b =>
    rw [bare, Bool.not_eq_false', decide_eq_true_eq] at hbare
    rw [pending, if_pos hbare]
    rfl
  | other p l =>
    cases p with
    | nil => rfl
    | cons c p => exact hhead
  | start s l ih =>
    rw [pending]
    split
    · rfl
    · next hend =>
      have hmore : l.bare asks = false := by rwa [bare, decide_eq_false hend, Bool.not_false,
        Bool.true_and] at hbare
      exact ih h.2 h.1 hmore

lemma head_pending_space (h : l.Apart isBlank) (hhead : l.text.head?.any isBlank = false) :
    (l.pending asks).text.head?.any isSpace = false := by
  cases hbare : l.bare asks with
  | true =>
    obtain ⟨b, htext, -⟩ := text_of_bare hbare
    rw [htext]
    rfl
  | false => exact any_isSpace_of_isBlank (head_pending h hhead hbare)

/-- A separator that is left at the end of the columns is taken out. -/
lemma dropDangling_separator (h : l.Apart isBlank) (hhead : l.text.head?.any isBlank = false) :
    dropDangling (separator ++ (l.pending asks).text) =
      l.separated asks ++ dropDangling (l.pending asks).text := by
  unfold separated
  cases hbare : l.bare asks with
  | true =>
    obtain ⟨b, htext, -⟩ := text_of_bare hbare
    have hfound : afterDangling? (separator ++ (fromLine ++ b)) = some (' ' :: b) :=
      afterDangling?_blank (v := [' ']) (all_eq_true.1 (by decide)) b
    have hspace : Passed [' '] := passed_of_inert (by decide)
    have hline : dropDangling (separator ++ (fromLine ++ b)) =
        "\nFROM".toList ++ dropDangling ([' '] ++ b) :=
      substitute_found afterDangling?_consumes (by decide) hfound
    rw [htext, hline, hspace.dropDangling, passed_fromLine.dropDangling]
    rfl
  | false =>
    refine substitute_pass fun z hz hne => ?_
    rcases suffix_cons_iff.1 hz with rfl | hz
    · exact afterDangling?_separator (head_pending h hhead hbare)
    · rcases suffix_cons_iff.1 hz with rfl | hz
      · exact afterDangling?_cons (by decide) _
      · exact absurd (suffix_nil.1 hz) hne

/-- The last edit leaves what is meant, or something lighter. -/
lemma dropDangling_pending (h : l.Apart isBlank) :
    KeptOrLighter 1 (l.All fun p => Calm afterDangling? p []) (dropDangling (l.pending asks).text)
      (l.kept asks) := by
  have hpart : ∀ p, KeptOrLighter 1 (Calm afterDangling? p []) (dropDangling p) p :=
    substitute_keptOrLighter afterDangling?_consumes (by decide)
  induction l with
  | tail t => exact hpart t
  | last s b =>
    rw [pending, kept]
    split
    · rw [text, passed_windowEnd.dropDangling]
      exact (hpart (fromLine ++ b)).append_left windowEnd
    · exact hpart (fromLine ++ b)
  | other p l ih =>
    have hsplit : dropDangling (p ++ (separator ++ (l.pending asks).text)) =
        dropDangling p ++ dropDangling (separator ++ (l.pending asks).text) :=
      substitute_append rfl fun y _ hne => afterDangling?_stop (c := ',') (by decide) hne _
    rw [pending, text, hsplit, dropDangling_separator h.2 h.1, kept]
    exact (hpart p).append ((ih h.2).append_left _)
  | start s l ih =>
    rw [pending, kept]
    split
    · rw [text, passed_windowEnd.dropDangling, dropDangling_separator h.2 h.1]
      exact ((ih h.2).append_left _).append_left windowEnd
    · exact ih h.2

/-- What is pending weighs at most two more than what is kept. -/
lemma weight_pending_le (asks : Bool) (l : Listing) :
    weight (l.pending asks).text ≤ weight (l.kept asks) + 2 := by
  have hcomma : weight separator = 2 := by decide
  -- the separator before a list
  have hbefore : ∀ l : Listing, weight (l.pending asks).text ≤ weight (l.kept asks) + 2 →
      weight (separator ++ (l.pending asks).text) ≤
        weight (l.separated asks ++ l.kept asks) + 2 := by
    intro l hl
    unfold separated
    cases hbare : l.bare asks with
    | true =>
      obtain ⟨b, htext, hkept⟩ := text_of_bare hbare
      rw [htext, hkept, weight_append, hcomma, if_pos rfl, nil_append]
      omega
    | false =>
      rw [if_neg Bool.false_ne_true, weight_append, weight_append]
      omega
  induction l with
  | tail t => exact Nat.le_add_right ..
  | last s b =>
    rw [pending, kept]
    split
    · exact Nat.le_add_right ..
    · exact Nat.le_add_right ..
  | other p l ih =>
    have hl := hbefore l ih
    rw [pending, text, kept, weight_append, weight_append p]
    omega
  | start s l ih =>
    have hl := hbefore l ih
    rw [pending, kept]
    split
    · rw [text, weight_append, weight_append windowEnd]
      omega
    · exact ih

end

lemma Apart.isSpace (h : l.Apart isBlank) : l.Apart isSpace := by
  induction l with
  | tail t => trivial
  | last s b => trivial
  | other p l ih => exact ⟨any_isSpace_of_isBlank h.1, ih h.2⟩
  | start s l ih => exact ⟨any_isSpace_of_isBlank h.1, ih h.2⟩

/-- The pending list is apart, too. -/
lemma Apart.pending (h : l.Apart isBlank) (asks : Bool) :
    (l.pending asks).Apart WindowStart.isSpace := by
  induction l with
  | tail t => trivial
  | last s b =>
    rw [Listing.pending]
    split
    · trivial
    · trivial
  | other p l ih => exact ⟨head_pending_space h.2 h.1, ih h.2⟩
  | start s l ih =>
    rw [Listing.pending]
    split
    · exact ⟨head_pending_space h.2 h.1, ih h.2⟩
    · exact ih h.2

/-- The pending list has the same parts that are to stay. -/
lemma all_pending (q : List Char → Prop) (l : Listing) : (l.pending false).All q ↔ l.All q := by
  induction l with
  | tail t => rfl
  | last s b => rfl
  | other p l ih => exact and_congr_right fun _ => ih
  | start s l ih => exact ih

/-- Window starts are taken out once. -/
lemma pending_pending (asks : Bool) (l : Listing) :
    (l.pending false).pending asks = l.pending false := by
  induction l with
  | tail t => rfl
  | last s b => rfl
  | other p l ih => exact congrArg (other p) ih
  | start s l ih => exact ih

lemma all_and (q q' : List Char → Prop) (l : Listing) :
    (l.All fun p => q p ∧ q' p) ↔ l.All q ∧ l.All q' := by
  induction l with
  | tail t => rfl
  | last s b => rfl
  | other p l ih => exact (and_congr_right fun _ => ih).trans and_and_and_comm
  | start s l ih => exact ih

lemma all_congr {q q' : List Char → Prop} (h : ∀ p, q p ↔ q' p) (l : Listing) :
    l.All q ↔ l.All q' := by
  rw [show q = q' from funext fun p => propext (h p)]

/-- Turning and taking out the window starts leaves all other parts if nothing is found in them. -/
lemma strip_toEnd (h : l.Apart isBlank) (asks : Bool) :
    KeptOrLighter 3 (l.All (Still true)) (strip (toEnd (if asks then l.text else strip l.text)))
      (l.pending asks).text := by
  cases asks with
  | true => exact strip_turned true l h.isSpace
  | false =>
    -- the first step takes the window starts out, and the others find what has been a part before
    have hfirst : KeptOrLighter 3 (l.All (Still false)) (strip l.text) (l.pending false).text :=
      strip_turned false l h.isSpace
    have hagain := strip_turned true (l.pending false) (h.pending false)
    rw [pending_pending] at hagain
    have hstill : Still true (l.pending false).text ↔ l.All (Still true) :=
      ((strip_turned_part true _).eq_iff (by decide)).symm.trans
        ((hagain.eq_iff (by decide)).trans (all_pending ..))
    have hboth := hfirst.trans (strip_turned_part true (strip l.text)) fun heq => by
      rw [heq, hstill]
    have hweaker : ∀ p, Still false p ∧ Still true p ↔ Still true p := fun p =>
      and_iff_right_of_imp fun hp => ⟨fun hfalse => absurd hfalse Bool.false_ne_true, hp.2⟩
    exact hboth.congr ((all_and ..).symm.trans (all_congr hweaker l))

end Listing

/-! ## Finds in statements -/

/-- A named window start, or a comma before FROM, is found at the beginning. -/
def isFound (s : List Char) : Bool :=
  (afterColumn? s).isSome || (afterEnd? s).isSome || (afterDangling? s).isSome

/-- Nothing is found in a text. -/
def Quiet (s : List Char) : Prop :=
  ∀ z, z <:+ s → isFound z = false

/-- Nothing is found if none of the three finds anything. -/
lemma isFound_eq_false : isFound s = false ↔
    (afterColumn? s = none ∧ afterEnd? s = none) ∧ afterDangling? s = none := by
  simp only [isFound, Bool.or_eq_false_iff, Option.isSome_eq_false_iff, Option.isNone_iff_eq_none]

lemma quiet_iff : Quiet s ↔ Still true s ∧ Calm afterDangling? s [] := by
  simp only [Still, Calm, append_nil]
  constructor
  · intro h
    have hnone := fun z hz => isFound_eq_false.1 (h z hz)
    exact ⟨⟨fun _ z hz _ => (hnone z hz).1.2, fun z hz _ => (hnone z hz).1.1⟩,
      fun z hz _ => (hnone z hz).2⟩
  · rintro ⟨⟨hend, hcolumn⟩, hdangling⟩ z hz
    by_cases hne : z = []
    · subst hne
      rfl
    · exact isFound_eq_false.2 ⟨⟨hcolumn z hz hne, hend trivial z hz hne⟩, hdangling z hz hne⟩

/-- What is found does not depend on the text from a stop on. -/
lemma isFound_stop {c : Char} (hstop : isStop c) {y : List Char} (hne : y ≠ [])
    (rest : List Char) : isFound (y ++ c :: rest) = isFound y := by
  rw [isFound, isFound, afterColumn?_eq, afterColumn?_eq, afterStart?_haltsAt hstop,
    afterEnd?_haltsAt hstop, afterDangling?_stop hstop hne]
  simp only [Option.isSome_map]

/-- Nothing is found in a separator. -/
lemma isFound_separator (hz : z <:+ separator) (hne : z ≠ [])
    (hrest : rest.head?.any isBlank = false) : isFound (z ++ rest) = false := by
  rw [isFound_eq_false, afterColumn?, afterEnd?, dropFolded?_separator hz hne]
  refine ⟨⟨rfl, rfl⟩, ?_⟩
  rcases suffix_cons_iff.1 hz with rfl | hz
  · exact afterDangling?_separator hrest
  · rcases suffix_cons_iff.1 hz with rfl | hz
    · exact afterDangling?_cons (by decide) rest
    · exact absurd (suffix_nil.1 hz) hne

/-- Nothing is found inside of a window start. -/
lemma StartColumn.isFound_text (s : StartColumn) (hz : z <:+ s.text) (hne : z ≠ [])
    (hinner : z ≠ s.text) (hrest : EndsColumn rest) : isFound (z ++ rest) = false :=
  isFound_eq_false.2 ⟨s.unfound hz hinner hrest, s.afterDangling?_text hz hne rest⟩

lemma suffix_append_append (h : z <:+ rest) (u v : List Char) : z <:+ u ++ (v ++ rest) :=
  h.trans ((suffix_append ..).trans (suffix_append ..))

lemma not_append_suffix {y v : List Char} (hne : y ≠ []) : ¬ y ++ (v ++ rest) <:+ rest := by
  intro hsuffix
  have hlength := hsuffix.length_le
  have hpos := length_pos_iff.2 hne
  rw [length_append, length_append] at hlength
  omega

/-- All that is found in a text is known, if it is found in the last part and known there. -/
lemma forall_found_append_iff {p v : List Char} {known : List Char → Prop}
    (hstop : ∀ y, y ≠ [] → isFound (y ++ (v ++ rest)) = isFound y)
    (hbetween : ∀ z, z <:+ v → z ≠ [] → isFound (z ++ rest) = false)
    (hknown : ∀ z, known z → z <:+ rest) :
    (∀ z, z <:+ p ++ (v ++ rest) → isFound z → known z) ↔
      Quiet p ∧ ∀ z, z <:+ rest → isFound z → known z := by
  constructor
  · intro hall
    refine ⟨fun y hy => Bool.eq_false_iff.2 fun hfound => ?_, fun z hz => ?_⟩
    · have hne : y ≠ [] := by
        rintro rfl
        cases hfound
      rw [← hstop y hne] at hfound
      obtain ⟨x, rfl⟩ := hy
      exact not_append_suffix hne (hknown _ (hall _ ⟨x, (append_assoc ..).symm⟩ hfound))
    · exact hall z (suffix_append_append hz p v)
  · rintro ⟨hp, hrest⟩ z hz hfound
    rcases suffix_append_cases hz with hz | ⟨y, hy, hne, rfl⟩
    · rcases suffix_append_cases hz with hz | ⟨y, hy, hne, rfl⟩
      · exact hrest z hz hfound
      · rw [hbetween y hy hne] at hfound
        cases hfound
    · rw [hstop y hne, hp y hy] at hfound
      cases hfound

namespace Listing

/-- The parts that are to stay do so if nothing is found in them, and else get lighter. -/
theorem dropChars_keptOrLighter {l : Listing} (h : l.Apart isBlank) (asks : Bool) :
    KeptOrLighter 1 (l.All Quiet) (dropChars asks l.text) (l.kept asks) := by
  have hquiet : l.All Quiet ↔ l.All (Still true) ∧ l.All fun p => Calm afterDangling? p [] :=
    (all_congr (fun _ => quiet_iff) l).trans (all_and ..)
  refine KeptOrLighter.congr ?_ hquiet.symm
  unfold dropChars
  rcases strip_toEnd h asks with ⟨hstill, htext⟩ | ⟨hstill, hlighter⟩
  · rw [htext]
    exact (dropDangling_pending h).congr (and_iff_right hstill).symm
  · -- what has got lighter before is lighter by more than a separator
    have hdangling := (substitute_keptOrLighter afterDangling?_consumes (by decide)
      (strip (toEnd (if asks then l.text else strip l.text)))).weight_le
    have hpending := l.weight_pending_le asks
    refine .inr ⟨fun hboth => hstill hboth.1, ?_⟩
    unfold dropDangling
    omega

/-- A column that is the window start begins here. -/
def Begins (z : List Char) : Listing → Prop
  | tail _ => False
  | last s b => z = s.text ++ (fromLine ++ b)
  | other _ l => l.Begins z
  | start s l => z = s.text ++ (separator ++ l.text) ∨ l.Begins z

/-- What a window start begins is a rest of the text. -/
lemma Begins.suffix {z : List Char} {l : Listing} (h : l.Begins z) : z <:+ l.text := by
  induction l with
  | tail t => cases h
  | last s b =>
    rw [h]
    exact suffix_rfl
  | other p l ih => exact suffix_append_append (ih h) p separator
  | start s l ih =>
    rcases h with rfl | h
    · exact suffix_rfl
    · exact suffix_append_append (ih h) s.text separator

/-- All finds are columns that are the window start exactly if nothing is found in other parts. -/
theorem forall_begins_iff {l : Listing} (h : l.Apart isBlank) :
    (∀ z, z <:+ l.text → isFound z → l.Begins z) ↔ l.All Quiet := by
  induction l with
  | tail t =>
    refine forall_congr' fun z => imp_congr_right fun _ => ?_
    rw [Begins, ← Bool.not_eq_true]
  | last s b =>
    constructor
    · intro hall z hz
      refine Bool.eq_false_iff.2 fun hfound => ?_
      have hz' : z = s.text ++ ([] ++ (fromLine ++ b)) :=
        hall z (hz.trans (suffix_append ..)) hfound
      exact not_append_suffix s.text_ne_nil (hz' ▸ hz)
    · intro hquiet z hz hfound
      rcases suffix_append_cases hz with hz | ⟨y, hy, hne, rfl⟩
      · rw [hquiet z hz] at hfound
        cases hfound
      · by_cases hinner : y = s.text
        · rw [hinner, Begins]
        · rw [s.isFound_text hy hne hinner (endsColumn_fromLine b)] at hfound
          cases hfound
  | other p l ih =>
    obtain ⟨hhead, hapart⟩ := h
    refine (forall_found_append_iff (fun y hne => ?_) (fun z hz hne => ?_)
      fun z hz => Begins.suffix hz).trans (and_congr_right fun _ => ih hapart)
    · exact isFound_stop (c := ',') (by decide) hne (' ' :: l.text)
    · exact isFound_separator hz hne hhead
  | start s l ih =>
    obtain ⟨hhead, hapart⟩ := h
    refine Iff.trans ⟨fun hall z hz hfound => ?_, fun hall z hz hfound => ?_⟩ (ih hapart)
    · rcases hall z (suffix_append_append hz s.text separator) hfound with rfl | hbegins
      · exact absurd hz (not_append_suffix s.text_ne_nil)
      · exact hbegins
    · rcases suffix_append_cases hz with hz | ⟨y, hy, hne, rfl⟩
      · rcases suffix_append_cases hz with hz | ⟨y, hy, hne, rfl⟩
        · exact .inr (hall z hz hfound)
        · rw [isFound_separator hy hne hhead] at hfound
          cases hfound
      · by_cases hinner : y = s.text
        · exact .inl (by rw [hinner])
        · rw [s.isFound_text hy hne hinner (endsColumn_separator l.text)] at hfound
          cases hfound

end Listing

end StreamQuery.WindowStart
