import StreamQuery.Proofs.JoinSql

/-!
# Reading join conditions

A scanner cuts the text of a join condition into tokens, and a machine with a stack of open brackets
puts them together, where `=` binds tighter than AND.  The text of a condition is read as that
condition, unless there are brackets with nothing between them (`JoinSql.read_text`).
-/

namespace StreamQuery.JoinSql

open List

/-! ## Tokens -/

/-- A token of a condition. -/
inductive Token where
  | opening
  | closing
  | equals
  | and
  | operand (value : JoinSql)
deriving Inhabited

/-- The tokens of a character that ends a word: a blank, a bracket or the sign of equality. -/
def delimiter? (c : Char) : Option (List Token) :=
  if c.isWhitespace then some []
  else if c == '(' then some [.opening]
  else if c == ')' then some [.closing]
  else if c == '=' then some [.equals]
  else none

/-- True for a character that can stand in a name. -/
def isNameChar (c : Char) : Bool :=
  (delimiter? c).isNone && c != '\'' && c != '.'

/-- True for a name: no numeral starts it, and no character ends a word. -/
def isName (s : String) : Bool :=
  s.toList.all isNameChar && s.toList.head?.any fun c => !c.isDigit && c != '-'

/-- Two names that tell the sides of a join apart. -/
structure AreAliases (l r : String) : Prop where
  left : isName l = true
  right : isName r = true
  distinct : l ≠ r

lemma AreAliases.pick {l r : String} (h : AreAliases l r) (side : Side) :
    isName (side.pick l r) := by
  cases side with
  | left => exact h.left
  | right => exact h.right

/-- The column that a word is: an alias and a name, with a point between them. -/
def column? (l r : String) (w : List Char) : Option JoinSql :=
  let source := String.ofList (w.takeWhile (· != '.'))
  let name := String.ofList ((w.dropWhile (· != '.')).drop 1)
  if !isName name then none
  else if source = l then some (.column .left name)
  else if source = r then some (.column .right name)
  else none

/-- The token of a word. -/
def word? (l r : String) (w : List Char) : Option Token :=
  if w = "AND".toList then some .and
  else if w = "NULL".toList then some (.operand (.literal .null))
  else if w = "true".toList then some (.operand (.literal (.bool true)))
  else if w = "false".toList then some (.operand (.literal (.bool false)))
  else if h : isNumeral w = true then
    some (.operand (.literal (.number ⟨String.ofList w, by rwa [String.toList_ofList]⟩)))
  else (column? l r w).map .operand

/-- Where the scanner stands. -/
inductive Scan where
  | between
  | word (w : List Char)
  | quoted (s : List Char)
  /-- Behind a quote that ends the string, unless another one follows. -/
  | closed (s : List Char)

/-- The token of a string. -/
def stringToken (s : List Char) : Token :=
  .operand (.literal (.string (String.ofList s)))

/-- The tokens of what has been read so far, if the text ends here. -/
def Scan.finish (l r : String) : Scan → Option (List Token)
  | .between => some []
  | .word w => (word? l r w).map fun t => [t]
  | .quoted _ => none
  | .closed s => some [stringToken s]

/-- One character. -/
def Scan.step (l r : String) : Scan → Char → Option (Scan × List Token)
  | .between, c =>
    match delimiter? c with
    | some tokens => some (.between, tokens)
    | none => some (if c = '\'' then .quoted [] else .word [c], [])
  | .word w, c =>
    match delimiter? c with
    | some tokens => (word? l r w).map fun t => (.between, t :: tokens)
    | none => if c = '\'' then none else some (.word (w ++ [c]), [])
  | .quoted s, c => some (if c = '\'' then .closed s else .quoted (s ++ [c]), [])
  | .closed s, c =>
    match delimiter? c with
    | some tokens => some (.between, stringToken s :: tokens)
    | none => if c = '\'' then some (.quoted (s ++ [c]), []) else none

/-- The tokens of a text. -/
def tokens? (l r : String) : Scan → List Char → Option (List Token)
  | s, [] => s.finish l r
  | s, c :: rest =>
    (s.step l r c).bind fun next => (tokens? l r next.1 rest).map (next.2 ++ ·)

/-! ## Reading -/

/-- What is open behind a bracket: the conditions that AND has ended, and the left side of an
equality whose right side is missing. -/
structure Frame where
  /-- The conditions that AND has ended. -/
  conditions : List JoinSql := []
  equalTo : Option JoinSql := none

/-- Adds an operand, which may be the right side of an equality. -/
def Frame.add (f : Frame) (c : JoinSql) : JoinSql :=
  match f.equalTo with
  | some l => .equal l c
  | none => c

/-- The state of the reader. -/
structure Reader where
  /-- The frames outside of the innermost open bracket. -/
  stack : List Frame := []
  frame : Frame := {}
  /-- The condition read last, if an operator can follow. -/
  operand : Option JoinSql := none

/-- One token. -/
def Reader.step : Reader → Token → Option Reader
  | ⟨stack, frame, none⟩, .operand c => some ⟨stack, frame, some (frame.add c)⟩
  | ⟨stack, frame, none⟩, .opening => some ⟨frame :: stack, {}, none⟩
  | ⟨stack, frame, some c⟩, .equals => some ⟨stack, ⟨frame.conditions, some c⟩, none⟩
  | ⟨stack, frame, some c⟩, .and => some ⟨stack, ⟨frame.conditions ++ [c], none⟩, none⟩
  | ⟨outer :: stack, frame, some c⟩, .closing =>
    some ⟨stack, outer, some (outer.add (conj (frame.conditions ++ [c])))⟩
  | _, _ => none

/-- The condition read, if no bracket is open and no operand is missing. -/
def Reader.finish : Reader → Option JoinSql
  | ⟨[], frame, some c⟩ => some (conj (frame.conditions ++ [c]))
  | _ => none

/-- Reads tokens one after the other. -/
def Reader.run (s : Reader) : List Token → Option JoinSql
  | [] => s.finish
  | t :: rest => (s.step t).bind fun s => run s rest

/-- Reads a condition over columns of two aliases. -/
def read (l r : String) (text : String) : Option JoinSql := do
  Reader.run {} (← tokens? l r .between text.toList)

/-! ## Scanning a text -/

/-- True for a character that a word goes on with. -/
def isWordChar (c : Char) : Bool :=
  (delimiter? c).isNone && c != '\''

/-- A text before which every word ends. -/
def Separated (rest : List Char) : Prop :=
  ∀ c ∈ rest.head?, (delimiter? c).isSome

section

variable (l r : String)

/-- A character that gives tokens. -/
lemma tokens?_step {s s' : Scan} {c : Char} {ts : List Token} (h : s.step l r c = some (s', ts))
    (rest : List Char) : tokens? l r s (c :: rest) = (tokens? l r s' rest).map (ts ++ ·) := by
  simp only [tokens?, h, Option.bind_some]

lemma tokens?_silent {s s' : Scan} {c : Char} (h : s.step l r c = some (s', []))
    (rest : List Char) : tokens? l r s (c :: rest) = tokens? l r s' rest := by
  rw [tokens?_step l r h]
  exact Option.map_id'

/-- A delimiter between words. -/
lemma tokens?_delimiter {d : Char} {ts : List Token} (hd : delimiter? d = some ts)
    (rest : List Char) :
    tokens? l r .between (d :: rest) = (tokens? l r .between rest).map (ts ++ ·) :=
  tokens?_step l r (by simp [Scan.step, hd]) rest

/-- What has been read ends where a delimiter follows. -/
lemma tokens?_end {s : Scan} {t : Token} (hs : s.finish l r = some [t]) {rest : List Char}
    (hrest : Separated rest) : tokens? l r s rest = (tokens? l r .between rest).map (t :: ·) := by
  cases rest with
  | nil => exact hs
  | cons d rest =>
    obtain ⟨ts, hts⟩ := Option.isSome_iff_exists.1 (hrest d rfl)
    have hstep : s.step l r d = some (.between, t :: ts) := by
      cases s with
      | between => cases hs
      | word w =>
        simp only [Scan.finish, Option.map_eq_some_iff, List.cons.injEq, and_true] at hs
        obtain ⟨t', hword, rfl⟩ := hs
        simp [Scan.step, hts, hword]
      | quoted s => cases hs
      | closed s =>
        cases hs
        simp [Scan.step, hts]
    rw [tokens?_step l r hstep, tokens?_delimiter l r hts, Option.map_map]
    rfl

lemma tokens?_word_append (w v rest : List Char) (hv : ∀ c ∈ v, isWordChar c) :
    tokens? l r (.word w) (v ++ rest) = tokens? l r (.word (w ++ v)) rest := by
  induction v generalizing w with
  | nil => simp
  | cons c v ih =>
    have hc : delimiter? c = none ∧ c ≠ '\'' := by
      simpa [isWordChar] using hv c (mem_cons_self ..)
    have hstep : (Scan.word w).step l r c = some (.word (w ++ [c]), []) := by
      simp [Scan.step, hc.1, hc.2]
    rw [cons_append, tokens?_silent l r hstep,
      ih _ (forall_mem_cons.1 hv).2, append_assoc, singleton_append]

/-- A word that is followed by a delimiter. -/
lemma tokens?_word {w rest : List Char} {t : Token} (hne : w ≠ [])
    (hw : ∀ c ∈ w, isWordChar c) (ht : word? l r w = some t) (hrest : Separated rest) :
    tokens? l r .between (w ++ rest) = (tokens? l r .between rest).map (t :: ·) := by
  obtain ⟨c, v, rfl⟩ := exists_cons_of_ne_nil hne
  have hc : delimiter? c = none ∧ c ≠ '\'' := by
    simpa [isWordChar] using hw c (mem_cons_self ..)
  have hstart : Scan.between.step l r c = some (.word [c], []) := by
    simp [Scan.step, hc.1, hc.2]
  have hend : (Scan.word (c :: v)).finish l r = some [t] := by
    simp [Scan.finish, ht]
  rw [cons_append, tokens?_silent l r hstart,
    tokens?_word_append l r _ _ _ (forall_mem_cons.1 hw).2]
  exact tokens?_end l r hend hrest

lemma tokens?_doubleQuotes (s b rest : List Char) :
    tokens? l r (.quoted b) (Constant.doubleQuotes s ++ '\'' :: rest) =
      tokens? l r (.closed (b ++ s)) rest := by
  have hquote : ∀ b, (Scan.quoted b).step l r '\'' = some (.closed b, []) := fun b => rfl
  induction s generalizing b with
  | nil =>
    rw [Constant.doubleQuotes, nil_append, tokens?_silent l r (hquote b), append_nil]
  | cons c s ih =>
    have happend : b ++ c :: s = (b ++ [c]) ++ s := by simp
    rw [happend, ← ih]
    by_cases hc : c = '\''
    · subst hc
      have hagain : (Scan.closed b).step l r '\'' = some (.quoted (b ++ ['\'']), []) := rfl
      rw [Constant.doubleQuotes_quote, cons_append, cons_append, tokens?_silent l r (hquote b),
        tokens?_silent l r hagain]
    · have hstep : (Scan.quoted b).step l r c = some (.quoted (b ++ [c]), []) := by
        simp [Scan.step, hc]
      rw [Constant.doubleQuotes_cons hc, cons_append, tokens?_silent l r hstep]

/-- A string literal that is followed by a delimiter. -/
lemma tokens?_quoted (s : String) {rest : List Char} (hrest : Separated rest) :
    tokens? l r .between ((Constant.quoted s).toList ++ rest) =
      (tokens? l r .between rest).map (.operand (.literal (.string s)) :: ·) := by
  have hopen : Scan.between.step l r '\'' = some (.quoted [], []) := rfl
  have hend : (Scan.closed s.toList).finish l r = some [.operand (.literal (.string s))] := by
    simp [Scan.finish, stringToken]
  rw [Constant.toList_quoted, cons_append, tokens?_silent l r hopen, append_assoc,
    singleton_append, tokens?_doubleQuotes, nil_append]
  exact tokens?_end l r hend hrest

end

/-! ### Words -/

lemma isWordChar_of_isDigit {c : Char} (h : c.isDigit) : isWordChar c := by
  have hblank : c.isWhitespace = false := by
    rw [Bool.eq_false_iff]
    intro hc
    simp only [Char.isWhitespace, Bool.or_eq_true, decide_eq_true_eq] at hc
    rcases hc with ((rfl | rfl) | rfl) | rfl <;> revert h <;> decide
  have hne : ∀ d : Char, d.isDigit = false → c ≠ d := by
    rintro d hd rfl
    rw [h] at hd
    cases hd
  simp [isWordChar, delimiter?, hblank, hne '(' rfl, hne ')' rfl, hne '=' rfl, hne '\'' rfl]

lemma isWordChar_of_isNumeral {cs : List Char} (h : isNumeral cs) : ∀ c ∈ cs, isWordChar c := by
  have hunsigned : ∀ cs, isUnsigned cs → ∀ c ∈ cs, isWordChar c := by
    intro cs hcs c hc
    rcases isDigit_or_point_of_isUnsigned hcs hc with hdigit | rfl
    · exact isWordChar_of_isDigit hdigit
    · decide
  unfold isNumeral at h
  split at h
  · intro c hc
    rcases mem_cons.1 hc with rfl | hc
    · decide
    · exact hunsigned _ h c hc
  · exact hunsigned _ h

lemma ne_nil_of_isNumeral {cs : List Char} (h : isNumeral cs) : cs ≠ [] := by
  rintro rfl
  revert h
  decide

lemma word?_number (l r : String) (n : { s : String // isNumeral s.toList = true }) :
    word? l r n.1.toList = some (.operand (.literal (.number n))) := by
  have hne : ∀ w : String, isNumeral w.toList = false → n.1.toList ≠ w.toList := by
    intro w hw heq
    have hn := n.2
    rw [heq, hw] at hn
    cases hn
  have hand := hne "AND" (by decide)
  have hnull := hne "NULL" (by decide)
  have htrue := hne "true" (by decide)
  have hfalse := hne "false" (by decide)
  simp only [word?, hand, hnull, htrue, hfalse, if_false, n.2, dif_pos, String.ofList_toList]

/-- A column of an alias is read as a column. -/
lemma word?_column {l r name : String} (h : AreAliases l r) (hname : isName name) (side : Side) :
    word? l r (side.pick l r ++ "." ++ name).toList = some (.operand (.column side name)) := by
  obtain ⟨hchars, hhead⟩ := Bool.and_eq_true_iff.1 (h.pick side)
  have hpoint : ∀ c ∈ (side.pick l r).toList, (c != '.') := by
    intro c hc
    have hc' := all_eq_true.1 hchars c hc
    simp only [isNameChar, Bool.and_eq_true] at hc'
    exact hc'.2
  have htext : (side.pick l r ++ "." ++ name).toList =
      (side.pick l r).toList ++ '.' :: name.toList := by
    simp [String.toList_append]
  have htake : ((side.pick l r).toList ++ '.' :: name.toList).takeWhile (· != '.') =
      (side.pick l r).toList := by
    rw [takeWhile_append_of_pos hpoint]
    simp
  have hdrop : ((side.pick l r).toList ++ '.' :: name.toList).dropWhile (· != '.') =
      '.' :: name.toList := by
    rw [dropWhile_append_of_pos hpoint]
    simp
  have hword : ∀ w : String, '.' ∉ w.toList →
      (side.pick l r).toList ++ '.' :: name.toList ≠ w.toList := by
    intro w hw heq
    exact hw (heq ▸ mem_append_right _ (mem_cons_self ..))
  have hnumeral : isNumeral ((side.pick l r).toList ++ '.' :: name.toList) = false := by
    cases hcs : (side.pick l r).toList with
    | nil => rw [hcs] at hhead; cases hhead
    | cons c cs =>
      rw [hcs] at hhead
      simp only [head?_cons, Option.any_some, Bool.and_eq_true, Bool.not_eq_true', bne_iff_ne,
        ne_eq] at hhead
      unfold isNumeral
      split
      · next heq => exact absurd (List.cons.inj heq).1 hhead.2
      · simp [isUnsigned, hhead.1]
  have hand := hword "AND" (by decide)
  have hnull := hword "NULL" (by decide)
  have htrue := hword "true" (by decide)
  have hfalse := hword "false" (by decide)
  rw [htext]
  simp only [word?, hand, hnull, htrue, hfalse, if_false, hnumeral, Bool.false_eq_true, dite_false]
  simp only [column?, htake, hdrop, drop_one, tail_cons, String.ofList_toList, hname]
  cases side with
  | left => simp [Side.pick]
  | right => simp [Side.pick, h.distinct.symm]

/-! ### The tokens of a condition -/

mutual

/-- The tokens of a condition. -/
def tokens : JoinSql → List Token
  | .column side name => [.operand (.column side name)]
  | .literal value => [.operand (.literal value)]
  | .equal a b => .opening :: (a.tokens ++ .equals :: (b.tokens ++ [.closing]))
  | .all a b rest => .opening :: (a.tokens ++ .and :: (b.tokens ++ (moreTokens rest ++ [.closing])))
  | .nothing => [.opening, .closing]

/-- The tokens of conditions that follow another one. -/
def moreTokens : List JoinSql → List Token
  | [] => []
  | c :: rest => .and :: (c.tokens ++ moreTokens rest)

end

mutual

/-- True when all columns have names. -/
def hasNames : JoinSql → Bool
  | .column _ name => isName name
  | .literal _ => true
  | .equal a b => a.hasNames && b.hasNames
  | .all a b rest => a.hasNames && b.hasNames && allHaveNames rest
  | .nothing => true

/-- True when all columns of all conditions have names. -/
def allHaveNames : List JoinSql → Bool
  | [] => true
  | c :: rest => c.hasNames && allHaveNames rest

end

mutual

/-- True when there is something between all brackets. -/
def isReadable : JoinSql → Bool
  | .column _ _ => true
  | .literal _ => true
  | .equal a b => a.isReadable && b.isReadable
  | .all a b rest => a.isReadable && b.isReadable && allReadable rest
  | .nothing => false

/-- True when there is something between all brackets of all conditions. -/
def allReadable : List JoinSql → Bool
  | [] => true
  | c :: rest => c.isReadable && allReadable rest

end

lemma toList_joined (sep t : String) (ts : List String) :
    (Text.joined sep (t :: ts)).toList =
      t.toList ++ ts.flatMap fun t => sep.toList ++ t.toList := by
  induction ts generalizing t with
  | nil => simp [Text.joined]
  | cons u ts ih =>
    have hcons : Text.joined sep (t :: u :: ts) = t ++ sep ++ Text.joined sep (u :: ts) :=
      String.intercalate_cons_cons
    rw [hcons, String.toList_append, String.toList_append, ih, flatMap_cons]
    simp

lemma separated_cons {d : Char} (rest : List Char) (hd : (delimiter? d).isSome) :
    Separated (d :: rest) := by
  rintro c ⟨⟩
  exact hd

section

variable (l r : String)

lemma tokens?_opening (rest : List Char) :
    tokens? l r .between ('(' :: rest) = (tokens? l r .between rest).map (.opening :: ·) :=
  tokens?_delimiter l r (show delimiter? '(' = some [.opening] from rfl) rest

lemma tokens?_closing (rest : List Char) :
    tokens? l r .between (')' :: rest) = (tokens? l r .between rest).map (.closing :: ·) :=
  tokens?_delimiter l r (show delimiter? ')' = some [.closing] from rfl) rest

lemma tokens?_blank (rest : List Char) :
    tokens? l r .between (' ' :: rest) = tokens? l r .between rest :=
  tokens?_silent l r rfl rest

lemma tokens?_equals (rest : List Char) :
    tokens? l r .between (" = ".toList ++ rest) =
      (tokens? l r .between rest).map (.equals :: ·) := by
  have htext : " = ".toList ++ rest = ' ' :: '=' :: ' ' :: rest := rfl
  have hsign : delimiter? '=' = some [.equals] := rfl
  rw [htext, tokens?_blank, tokens?_delimiter l r hsign, tokens?_blank]
  rfl

lemma tokens?_and (rest : List Char) :
    tokens? l r .between (" AND ".toList ++ rest) =
      (tokens? l r .between rest).map (.and :: ·) := by
  have htext : " AND ".toList ++ rest = ' ' :: ("AND".toList ++ ' ' :: rest) := rfl
  have hword : word? l r "AND".toList = some .and := by simp [word?]
  rw [htext, tokens?_blank, tokens?_word l r (by decide) (all_eq_true.1 (by decide)) hword
    (separated_cons rest (by decide)), tokens?_blank]

variable {l r}

/-- A column that is followed by a delimiter. -/
lemma tokens?_column (h : AreAliases l r) {name : String} (hname : isName name) (side : Side)
    {rest : List Char} (hrest : Separated rest) :
    tokens? l r .between ((side.pick l r ++ "." ++ name).toList ++ rest) =
      (tokens? l r .between rest).map (.operand (.column side name) :: ·) := by
  have hchars : ∀ s, isName s → ∀ c ∈ s.toList, isWordChar c := by
    intro s hs c hc
    have hc' := all_eq_true.1 (Bool.and_eq_true_iff.1 hs).1 c hc
    simp only [isNameChar, Bool.and_eq_true] at hc'
    simp only [isWordChar, Bool.and_eq_true]
    exact hc'.1
  refine tokens?_word l r (by simp) (fun c hc => ?_) (word?_column h hname side) hrest
  simp only [String.toList_append, mem_append] at hc
  rcases hc with (hc | hc) | hc
  · exact hchars _ (h.pick side) c hc
  · obtain rfl : c = '.' := by simpa using hc
    decide
  · exact hchars _ hname c hc

/-- A literal that is followed by a delimiter. -/
lemma tokens?_literal (value : Literal) {rest : List Char} (hrest : Separated rest) :
    tokens? l r .between (value.sql.toList ++ rest) =
      (tokens? l r .between rest).map (.operand (.literal value) :: ·) := by
  cases value with
  | null =>
    exact tokens?_word l r (by decide) (all_eq_true.1 (by decide))
      (by simp [word?, Literal.sql]) hrest
  | bool value =>
    cases value
    · exact tokens?_word l r (by decide) (all_eq_true.1 (by decide))
        (by simp [word?, Literal.sql]) hrest
    · exact tokens?_word l r (by decide) (all_eq_true.1 (by decide))
        (by simp [word?, Literal.sql]) hrest
  | number n =>
    exact tokens?_word l r (ne_nil_of_isNumeral n.2) (isWordChar_of_isNumeral n.2)
      (word?_number l r n) hrest
  | string value => exact tokens?_quoted l r value hrest

mutual

/-- The text of a condition gives its tokens. -/
lemma tokens?_text (h : AreAliases l r) (c : JoinSql) (hc : c.hasNames) {rest : List Char}
    (hrest : Separated rest) :
    tokens? l r .between ((c.text l r).toList ++ rest) =
      (tokens? l r .between rest).map (c.tokens ++ ·) := by
  have hblank : ∀ cs, Separated (" = ".toList ++ cs) := fun cs => separated_cons _ (by decide)
  have hclose : Separated (')' :: rest) := separated_cons rest (by decide)
  cases c with
  | column side name =>
    rw [text, tokens]
    exact tokens?_column h (by simpa [hasNames] using hc) side hrest
  | literal value =>
    rw [text, tokens]
    exact tokens?_literal value hrest
  | equal a b =>
    obtain ⟨ha, hb⟩ : a.hasNames ∧ b.hasNames := by simpa [hasNames] using hc
    have htext : (equalText (a.text l r) (b.text l r)).toList ++ rest =
        '(' :: ((a.text l r).toList ++ (" = ".toList ++ ((b.text l r).toList ++ ')' :: rest))) := by
      simp [equalText]
    rw [text, htext, tokens?_opening, tokens?_text h a ha (hblank _), tokens?_equals,
      tokens?_text h b hb hclose, tokens?_closing]
    simp [tokens, Function.comp_def]
  | all a b cs =>
    obtain ⟨⟨ha, hb⟩, hcs⟩ : (a.hasNames ∧ b.hasNames) ∧ allHaveNames cs := by
      simpa [hasNames] using hc
    have htext : ("(" ++ Text.joined " AND " (a.text l r :: b.text l r :: texts l r cs) ++
          ")").toList ++ rest =
        '(' :: ((a.text l r).toList ++ (" AND ".toList ++ ((b.text l r).toList ++
          ((texts l r cs).flatMap (fun t => " AND ".toList ++ t.toList) ++ ')' :: rest)))) := by
      simp [toList_joined]
    have hand : ∀ cs, Separated (" AND ".toList ++ cs) := fun cs => separated_cons _ (by decide)
    have hmore : Separated
        ((texts l r cs).flatMap (fun t => " AND ".toList ++ t.toList) ++ ')' :: rest) := by
      cases texts l r cs with
      | nil => exact hclose
      | cons t ts => exact hand _
    rw [text, htext, tokens?_opening, tokens?_text h a ha (hand _), tokens?_and,
      tokens?_text h b hb hmore, tokens?_texts h cs hcs hclose, tokens?_closing]
    simp [tokens, Function.comp_def]
  | nothing =>
    have htext : "()".toList ++ rest = '(' :: ')' :: rest := rfl
    rw [text, htext, tokens?_opening, tokens?_closing]
    simp [tokens, Function.comp_def]

/-- The texts of conditions behind another one give their tokens. -/
lemma tokens?_texts (h : AreAliases l r) (cs : List JoinSql) (hcs : allHaveNames cs)
    {rest : List Char} (hrest : Separated rest) :
    tokens? l r .between
        ((texts l r cs).flatMap (fun t => " AND ".toList ++ t.toList) ++ rest) =
      (tokens? l r .between rest).map (moreTokens cs ++ ·) := by
  cases cs with
  | nil => simp [texts, moreTokens]
  | cons c cs =>
    obtain ⟨hc, hcs⟩ : c.hasNames ∧ allHaveNames cs := by
      simpa [allHaveNames] using hcs
    have hmore : Separated
        ((texts l r cs).flatMap (fun t => " AND ".toList ++ t.toList) ++ rest) := by
      cases texts l r cs with
      | nil => exact hrest
      | cons t ts => exact separated_cons _ (by decide)
    rw [texts, flatMap_cons, append_assoc, append_assoc, tokens?_and,
      tokens?_text h c hc hmore, tokens?_texts h cs hcs hrest]
    simp [moreTokens, Function.comp_def]

end

end

/-! ### Putting tokens together -/

mutual

/-- The tokens of a condition are put together to the condition. -/
lemma run_tokens (c : JoinSql) (stack : List Frame) (frame : Frame) (rest : List Token) :
    Reader.run ⟨stack, frame, none⟩ (c.tokens ++ rest) =
      if c.isReadable then Reader.run ⟨stack, frame, some (frame.add c)⟩ rest else none := by
  cases c with
  | equal a b =>
    have htokens : (equal a b).tokens ++ rest =
        .opening :: (a.tokens ++ .equals :: (b.tokens ++ .closing :: rest)) := by
      simp [tokens]
    rw [htokens]
    simp only [Reader.run, Reader.step, Option.bind_some, run_tokens a]
    cases ha : a.isReadable with
    | false => simp [isReadable, ha]
    | true =>
      simp only [Reader.run, Reader.step, Option.bind_some, run_tokens b, if_true]
      cases hb : b.isReadable with
      | false => simp [isReadable, hb]
      | true => simp [isReadable, ha, hb, Frame.add, conj]
  | all a b cs =>
    have htokens : (all a b cs).tokens ++ rest =
        .opening :: (a.tokens ++ .and :: (b.tokens ++ (moreTokens cs ++ .closing :: rest))) := by
      simp [tokens]
    rw [htokens]
    simp only [Reader.run, Reader.step, Option.bind_some, run_tokens a]
    cases ha : a.isReadable with
    | false => simp [isReadable, ha]
    | true =>
      simp only [run_tokens b, if_true]
      cases hb : b.isReadable with
      | false => simp [isReadable, hb]
      | true =>
        simp only [if_true, run_moreTokens cs]
        simp [isReadable, ha, hb, Frame.add, conj]
  | _ => simp [tokens, isReadable, Reader.run, Reader.step]

/-- Tokens up to a closing bracket give all further conditions. -/
lemma run_moreTokens (cs : List JoinSql) (outer : Frame) (stack : List Frame) (frame : Frame)
    (c : JoinSql) (rest : List Token) :
    Reader.run ⟨outer :: stack, frame, some c⟩ (moreTokens cs ++ .closing :: rest) =
      if allReadable cs then
        Reader.run ⟨stack, outer, some (outer.add (conj (frame.conditions ++ c :: cs)))⟩ rest
      else none := by
  cases cs with
  | nil => simp [moreTokens, allReadable, Reader.run, Reader.step]
  | cons d ds =>
    have htokens : moreTokens (d :: ds) ++ .closing :: rest =
        .and :: (d.tokens ++ (moreTokens ds ++ .closing :: rest)) := by
      simp [moreTokens]
    rw [htokens]
    simp only [Reader.run, Reader.step, Option.bind_some, run_tokens d]
    cases hd : d.isReadable with
    | false => simp [allReadable, hd]
    | true =>
      simp only [if_true, run_moreTokens ds]
      simp [allReadable, hd, Frame.add]

end

/-- A condition is read from its text, unless there are empty brackets. -/
theorem read_text {l r : String} (h : AreAliases l r) (c : JoinSql) (hc : c.hasNames) :
    read l r (c.text l r) = if c.isReadable then some c else none := by
  have htokens : tokens? l r .between (c.text l r).toList = some c.tokens := by
    have hend : Separated [] := by rintro c ⟨⟩
    simpa [tokens?, Scan.finish] using tokens?_text h c hc hend
  have hrun := run_tokens c [] {} []
  rw [append_nil] at hrun
  simp only [read, htokens, Option.bind_eq_bind, Option.bind_some, hrun, Reader.run, Reader.finish,
    Frame.add, nil_append, conj]

end StreamQuery.JoinSql
