import StreamQuery.Proofs.FilterParts
import StreamQuery.Proofs.ForcedAlias
import StreamQuery.Proofs.JoinCondition

/-!
# The layouts of the parts of a row filter

A part that can be written has a hushed layout whose holes are its parts, with its comparands behind
the signs of comparison (`Part.written`).  Names must be quiet for that, the rules of the catalog
must be quiet, and templates must be filled safely.
-/

namespace StreamQuery

open Layout List CallTexts

/-! ## The layouts of parts -/

/-- A text that is put together from the texts of parts by a hushed layout. -/
structure Written (d : Dialect) (aliases : AliasTable) (parts comparands : List Part) (t : String) :
    Prop where
  texts : ∀ p ∈ parts, ∃ s, p.text d aliases = .ok s
  layout : ∃ L : Layout Part, Hushed {} L comparands ∧ (∀ s ∈ L.leaves, IsQuiet s.toList) ∧
    L.holes = parts ∧ L.fill (Part.chars d aliases) = t.toList

section

variable {d : Dialect} {aliases : AliasTable} {p q r : Part} {t u v text : String}

variable {place : Place} {op : BinaryOp} {left right : Expr}

lemma Part.chars_of_text (h : p.text d aliases = .ok t) : p.chars d aliases = t.toList := by
  rw [chars, h]

namespace Written

variable {ps : List Part} {ts : List String}

lemma leaf (h : IsQuiet t.toList) : Written d aliases [] [] t where
  texts p hp := absurd hp not_mem_nil
  layout := ⟨[.leaf t], ⟨rfl, rfl⟩, by simpa using h, rfl, by simp⟩

/-- A text by a layout whose holes stand for parts. -/
lemma of_layout {H : Type} {L : Layout H} {cs : List H} (f : H → Part) (text : H → String)
    (hL : Hushed {} L cs) (hleaves : ∀ s ∈ L.leaves, IsQuiet s.toList)
    (htext : ∀ x ∈ L.holes, (f x).text d aliases = .ok (text x))
    (hfill : L.fill (fun x => (text x).toList) = t.toList) :
    Written d aliases (L.holes.map f) (cs.map f) t where
  texts p hp := by
    obtain ⟨x, hx, rfl⟩ := mem_map.1 hp
    exact ⟨_, htext x hx⟩
  layout := by
    refine ⟨L.map (Span.rename f), hL.rename f, leaves_rename f L ▸ hleaves, holes_rename f L, ?_⟩
    rw [fill_rename, ← hfill]
    exact fill_congr fun x hx => Part.chars_of_text (htext x hx)

/-- A part is written between two texts. -/
lemma around (hp : p.text d aliases = .ok t) (a b : String)
    (hL : Hushed {} (words a ++ [Span.hole ()] ++ words b) []) :
    Written d aliases [p] [] (a ++ t ++ b) := by
  have hfill : fill (fun _ => t.toList) (words a ++ [Span.hole ()] ++ words b) =
      (a ++ t ++ b).toList := by simp
  simpa using of_layout (fun _ => p) (fun _ => t) hL (by simp) (fun _ _ => hp) hfill

lemma behind (hp : p.text d aliases = .ok t) (b : String)
    (hL : Hushed {} ([Span.hole ()] ++ words b) []) : Written d aliases [p] [] (t ++ b) := by
  simpa using around hp "" b hL

lemma before (hp : p.text d aliases = .ok t) (a : String)
    (hL : Hushed {} (words a ++ [Span.hole ()]) []) : Written d aliases [p] [] (a ++ t) := by
  have hL' : Hushed {} (words a ++ [Span.hole ()] ++ words "") [] := by simpa [words] using hL
  simpa using around hp a "" hL'

/-- A text around a quiet one. -/
lemma bracketed (ht : IsQuiet t.toList) (a b : String)
    (hL : Hushed {} (words a ++ [Span.leaf t] ++ words b : Layout Part) []) :
    Written d aliases [] [] (a ++ t ++ b) where
  texts p hp := absurd hp not_mem_nil
  layout := ⟨_, hL, by simpa using ht, by simp, by simp⟩

/-- A text around those of two parts. -/
lemma between (hp : p.text d aliases = .ok t) (hq : q.text d aliases = .ok u) (a b c : String)
    (hL : Hushed {} (words a ++ [Span.hole Side.left] ++ words b ++ [Span.hole Side.right] ++
      words c) []) :
    Written d aliases [p, q] [] (a ++ t ++ b ++ u ++ c) := by
  have htext : ∀ side : Side,
      (side.pick p q).text d aliases = .ok (side.pick t u) := by
    intro side
    cases side
    · exact hp
    · exact hq
  have hfill : fill (fun side : Side => (side.pick t u).toList)
      (words a ++ [Span.hole .left] ++ words b ++ [Span.hole .right] ++ words c) =
        (a ++ t ++ b ++ u ++ c).toList := by
    simp [Side.pick]
  simpa [Side.pick] using
    of_layout (Side.pick p q) (Side.pick t u) hL (by simp) (fun side _ => htext side) hfill

lemma part (hp : p.text d aliases = .ok t) : Written d aliases [p] [] t where
  texts := by simp [hp]
  layout := ⟨[.hole p], ⟨rfl, rfl⟩, by simp, by simp, by simp [Part.chars_of_text hp]⟩

/-- What a place writes around a text adds no parts. -/
lemma wrap {parts comparands : List Part} (place : Place)
    (h : Written d aliases parts comparands t) :
    Written d aliases parts comparands (place.wrap t) := by
  cases place with
  | value => exact h
  | condition => exact h
  | negated =>
    obtain ⟨htexts, L, hL, hleaves, hholes, hfill⟩ := h
    refine ⟨htexts, words "NOT (" ++ L ++ words ")", ?_, by simpa using hleaves,
      by simpa using hholes, ?_⟩
    · have hclosed := hL.append (hushed_bracket Part)
      rw [append_nil] at hclosed
      rw [append_assoc]
      exact ⟨hclosed.isHushed, hclosed.compared⟩
    · simp [hfill, Place.wrap]

/-- An operation. -/
lemma operation (op : BinaryOp) (hp : p.text d aliases = .ok t) (hq : q.text d aliases = .ok u) :
    Written d aliases [p, q] (if op.endsWithSign then [q] else []) (op.text t u) := by
  have hsign : ∀ op : BinaryOp, op ≠ .coalesce →
      Written d aliases [p, q] (if op.endsWithSign then [q] else [])
        ("(" ++ t ++ " " ++ op.symbol ++ " " ++ u ++ ")") := by
    intro op hop
    refine ⟨by simp [hp, hq], words "(" ++ [Span.hole p] ++
      (words " " ++ words op.symbol ++ words " ") ++ [Span.hole q] ++ words ")", ?_, by simp,
      by simp, ?_⟩
    · cases op
      case coalesce => exact absurd rfl hop
      all_goals exact ⟨rfl, rfl⟩
    · simp [Part.chars_of_text hp, Part.chars_of_text hq]
  cases op
  case coalesce => exact between hp hq "COALESCE(" ", " ")" (by decide)
  all_goals exact hsign _ (by decide)

/-- A choice is written from its three parts. -/
lemma choice (hp : p.text d aliases = .ok t) (hq : q.text d aliases = .ok u)
    (hr : r.text d aliases = .ok v) : Written d aliases [p, q, r] [] (caseText t u v) where
  texts := by simp [hp, hq, hr]
  layout := by
    refine ⟨words "CASE WHEN " ++ [Span.hole p] ++ words " THEN " ++ [Span.hole q] ++
      words " ELSE " ++ [Span.hole r] ++ words " END", ⟨rfl, rfl⟩, by simp, by simp, ?_⟩
    delta caseText
    simp [Part.chars_of_text hp, Part.chars_of_text hq, Part.chars_of_text hr]

/-- A cast is written from its operand. -/
lemma cast (hp : p.text d aliases = .ok t) (hu : IsQuiet u.toList) :
    Written d aliases [p] [] (castText t u) where
  texts := by simp [hp]
  layout := ⟨words "CAST(" ++ [Span.hole p] ++ words " AS " ++ [Span.leaf u] ++ words ")",
    ⟨rfl, rfl⟩, by simpa using hu, by simp, by simp [castText, Part.chars_of_text hp]⟩

/-- The texts of parts. -/
abbrev Texts (d : Dialect) (aliases : AliasTable) (ps : List Part) (ts : List String) : Prop :=
  List.Forall₂ (fun p t => p.text d aliases = .ok t) ps ts

lemma Texts.exists_text (h : Texts d aliases ps ts) : ∀ p ∈ ps, ∃ s, p.text d aliases = .ok s := by
  intro p hp
  obtain ⟨i, hi, rfl⟩ := getElem_of_mem hp
  exact ⟨_, h.get hi (h.length_eq ▸ hi)⟩

lemma texts_of_map {es : List Expr}
    (h : es.map (fun e => (Part.value e).text d aliases) = ts.map .ok) :
    Texts d aliases (es.map .value) ts := by
  rw [Texts, forall₂_map_left_iff]
  induction es generalizing ts with
  | nil =>
    rw [map_nil, eq_comm, map_eq_nil_iff] at h
    rw [h]
    exact .nil
  | cons e es ih =>
    cases ts with
    | nil => cases h
    | cons t ts =>
      rw [map_cons, map_cons, cons.injEq] at h
      exact .cons h.1 (ih h.2)

/-- A call of a function. -/
lemma call {name : String} (hname : IsQuiet name.toList) {ps : List Part} {ts : List String}
    (h : Texts d aliases ps ts) :
    Written d aliases ps [] (name ++ "(" ++ Text.joined ", " ts ++ ")") where
  texts := h.exists_text
  layout := by
    have hitems : Hushed {} (joined ", " (ps.map fun p => [.hole p])) [] := by
      have hholes : ∀ L ∈ ps.map fun p => ([.hole p] : Layout Part),
          Layout.isHushed {} L := by
        intro L hL
        obtain ⟨p, -, rfl⟩ := mem_map.1 hL
        rfl
      have hjoined := Hushed.joined (separates_comma Part) hholes
      refine ⟨hjoined.isHushed, hjoined.compared.trans ?_⟩
      simp [flatMap_map, compared, Scan.compared]
    have hfill : (joined ", " (ps.map fun p => [.hole p])).fill (Part.chars d aliases) =
        (Text.joined ", " ts).toList := by
      refine Layout.fill_joined ?_ ", "
      rw [forall₂_map_left_iff]
      exact h.imp fun p t hp => by simp [Part.chars_of_text hp]
    have hclosed := hitems.append (hushed_bracket Part)
    refine ⟨[Span.leaf name] ++ words "(" ++ (joined ", " (ps.map fun p => [.hole p]) ++ words ")"),
      ⟨hclosed.isHushed, hclosed.compared⟩, ?_, ?_, ?_⟩
    · simpa [flatMap_map] using hname
    · simp [flatMap_map]
    · simp [hfill]

/-- The branches of a case form. -/
def branches : List Part → Layout Part
  | [] => []
  | [last] => words " ELSE " ++ [.hole last]
  | test :: value :: rest =>
    words " WHEN " ++ [.hole test] ++ words " THEN " ++ [.hole value] ++ branches rest

/-- The branches of a case form are hushed, and hold the texts of the branches. -/
lemma branches_spec (h : Texts d aliases ps ts) :
    Hushed .afterText (branches ps ++ words " END") [] ∧ (branches ps).leaves = [] ∧
      (branches ps).holes = ps ∧
        (branches ps).fill (Part.chars d aliases) = (caseBranches ts).toList := by
  induction ps using branches.induct generalizing ts with
  | case1 =>
    cases h
    exact ⟨⟨rfl, rfl⟩, rfl, rfl, rfl⟩
  | case2 last =>
    cases h with
    | cons hlast hrest =>
      cases hrest
      exact ⟨⟨rfl, rfl⟩, by simp [branches], by simp [branches],
        by simp [branches, caseBranches, Part.chars_of_text hlast]⟩
  | case3 test value rest ih =>
    cases h with
    | cons htest hrest =>
      cases hrest with
      | cons hvalue hrest =>
        obtain ⟨hhushed, hleaves, hholes, hfill⟩ := ih hrest
        refine ⟨⟨hhushed.isHushed, hhushed.compared⟩, by simp [branches, hleaves],
          by simp [branches, hholes], ?_⟩
        simp [branches, caseBranches, Part.chars_of_text htest, Part.chars_of_text hvalue, hfill]

/-- A case form is written from its branches. -/
lemma caseForm (h : Texts d aliases ps ts) :
    Written d aliases ps [] ("CASE" ++ caseBranches ts ++ " END") where
  texts := h.exists_text
  layout := by
    obtain ⟨hhushed, hleaves, hholes, hfill⟩ := branches_spec h
    have hcase : Hushed {} (words "CASE" : Layout Part) [] := ⟨rfl, rfl⟩
    exact ⟨words "CASE" ++ (branches ps ++ words " END"), hcase.append hhushed, by simp [hleaves],
      by simp [hholes], by simp [hfill]⟩

end Written

/-- A template is filled as its layout is. -/
lemma Template.fill_layout (t : Template) (args : List (List Char)) :
    t.layout.fill (fun i : Fin 10 => args.getD i []) = t.fill args := by
  induction t with
  | nil => rfl
  | cons piece t ih =>
    cases piece with
    | char c => exact congrArg (c :: ·) ih
    | hole i => exact congrArg (args.getD i [] ++ ·) ih

lemma Template.lt_of_fits {t : Template} {n : Nat} (h : t.fits n) {i : Fin 10}
    (hi : i ∈ t.layout.holes) : (i : Nat) < n := by
  obtain ⟨span, hspan, hi⟩ := mem_flatMap.1 hi
  obtain ⟨piece, hpiece, rfl⟩ := mem_map.1 hspan
  have hfits := all_eq_true.1 h piece hpiece
  cases piece with
  | char c => cases hi
  | hole j =>
    rw [mem_singleton.1 hi]
    simpa using hfits

/-- The operand with a number, inside a call. -/
def Part.operand (es : List Expr) (i : Fin 10) : Part :=
  .inner (es.getD i default)

/-- The holes of a template that fits are the operands that are written. -/
lemma Template.holes_operand {tpl : Template} {es : List Expr} (hfits : tpl.fits es.length) :
    tpl.layout.holes.map (Part.operand es) =
      (tpl.layout.holes.filterMap fun i : Fin 10 => es[(i : Nat)]?).map .inner := by
  have hsome : tpl.layout.holes.filterMap (fun i : Fin 10 => es[(i : Nat)]?) =
      tpl.layout.holes.filterMap (some ∘ fun i : Fin 10 => es.getD i default) := by
    refine filterMap_congr fun i hi => ?_
    simp [Template.lt_of_fits hfits hi]
  rw [hsome, filterMap_eq_map, map_map]
  rfl

/-- A template that is filled with the texts of operands. -/
lemma Written.template {rule : FunctionRule} {method template : String}
    (htemplate : rule.template = some template) (hform : rule.writesForm method)
    (hspecial : rule.special = false) (hquiet : rule.isQuiet) {es : List Expr}
    {ts : List String} (haccepts : rule.accepts ts.length)
    (h : Texts d aliases (es.map .inner) ts) (hfree : PlaceholderFreeTexts ts) :
    Written d aliases ((rule.writtenOperands es).map .inner) []
      (FunctionRule.fillFrom 0 template ts) := by
  simp only [FunctionRule.writesForm, hspecial, htemplate, Bool.false_eq_true, if_false,
    Bool.and_eq_true, beq_iff_eq, decide_eq_true_eq] at hform
  simp only [FunctionRule.isQuiet, hspecial, htemplate, Bool.false_or, Bool.and_eq_true,
    List.isEmpty_iff] at hquiet
  simp only [FunctionRule.accepts, Bool.and_eq_true, decide_eq_true_eq] at haccepts
  simp only [FunctionRule.writtenOperands, htemplate]
  obtain ⟨⟨htext, hsound⟩, hfits⟩ := hform
  generalize Template.ofChars template.toList = tpl at *
  have hcount : tpl.fits ts.length := Template.fits_of_le hfits haccepts.1
  have hlength : es.length = ts.length := by simpa using h.length_eq
  have hoperand : ∀ i ∈ tpl.layout.holes,
      (Part.operand es i).text d aliases = .ok (ts.getD i "") := by
    intro i hi
    have hlt := Template.lt_of_fits hcount hi
    have hget := h.get (i := i) (by simpa [hlength] using hlt) hlt
    simpa [Part.operand, hlength ▸ hlt, hlt] using hget
  rw [← Template.holes_operand (hlength ▸ hcount)]
  have hushed : Hushed {} tpl.layout [] := ⟨hquiet.1, hquiet.2⟩
  refine of_layout (Part.operand es) (fun i => ts.getD i "") hushed ?_ hoperand ?_
  · intro s hs
    obtain ⟨span, hspan, hs⟩ := mem_flatMap.1 hs
    simp only [Template.layout, mem_map] at hspan
    obtain ⟨piece, -, rfl⟩ := hspan
    cases piece <;> cases hs
  · rw [Template.toList_fillFrom htext hsound hcount hfree, ← Template.fill_layout]
    refine fill_congr fun i hi => ?_
    simp [Template.lt_of_fits hcount hi]

/-! ## Calls -/

lemma Expr.scalars_eq_map (write : MemberText) (es : List Expr) :
    Expr.scalars d write es = es.map (Expr.scalar d write) := by
  induction es with
  | nil => rfl
  | cons e rest ih => exact congrArg (e.scalar d write :: ·) ih

/-- Operands are taken alike from expressions and what is made of them. -/
lemma Method.operands_map {α β : Type} (f : α → β) (method : Method) (receiver : Option α)
    (args : List α) :
    method.operands (receiver.map f) (args.map f) = (method.operands receiver args).map f := by
  unfold Method.operands
  cases method.binding with
  | onInstance => cases receiver <;> simp
  | onType => rfl
  | extending => simp

variable {method : Method} {receiver : Option Expr} {args : List Expr}

/-- A call in the filter, with the texts of its operands inside the call. -/
abbrev CallTexts.inner (d : Dialect) (aliases : AliasTable) (method : Method)
    (receiver : Option Expr) (args : List Expr) : CallTexts :=
  .scalars d (Filter.memberText aliases) method receiver args

/-- The texts of the operands of a call. -/
lemma CallTexts.operandTexts_inner :
    (inner d aliases method receiver args).operandTexts =
      (method.operands receiver args).map fun e => (Part.inner e).text d aliases := by
  have hreceiver : Expr.scalar? d (Filter.memberText aliases) receiver =
      receiver.map fun e => (Part.inner e).text d aliases := by cases receiver <;> rfl
  have hargs : Expr.scalars d (Filter.memberText aliases) args =
      args.map fun e => (Part.inner e).text d aliases := Expr.scalars_eq_map _ args
  rw [← Method.operands_map, ← hreceiver, ← hargs]
  rfl

/-- If all operands of a call can be written, they have texts. -/
lemma CallTexts.texts_of_allTexts {ts : List String}
    (h : (inner d aliases method receiver args).allTexts = .ok ts) :
    Written.Texts d aliases ((method.operands receiver args).map .inner) ts := by
  unfold allTexts at h
  rw [operandTexts_inner] at h
  rw [Written.Texts, forall₂_map_left_iff]
  generalize method.operands receiver args = es at h
  induction es generalizing ts with
  | nil =>
    cases h
    exact .nil
  | cons e rest ih =>
    rw [map_cons, mapM_cons] at h
    obtain ⟨t, ht, h⟩ := ok_of_bind h
    obtain ⟨us, hus, h⟩ := ok_of_bind h
    cases h
    exact .cons ht (ih hus)

namespace Written

variable {ts : List String}

/-- A method without rule. -/
lemma unknown (h : (inner d aliases method receiver args).unknownText d = .ok text) :
    Written d aliases (((method.operands receiver args).take 1).map .inner) [] text := by
  unfold unknownText at h
  split at h
  · obtain ⟨source, hsource, h⟩ := ok_of_bind h
    cases h
    have hquiet := isQuiet_suggestedType method.name d.decimal
    rw [operandTexts_inner] at hsource
    cases hoperands : method.operands receiver args with
    | nil =>
      rw [hoperands] at hsource
      cases hsource
      refine ⟨fun p hp => absurd hp not_mem_nil,
        words "CAST(NULL AS " ++ [Span.leaf _] ++ words ")", ⟨rfl, rfl⟩, by simpa using hquiet,
        by simp, ?_⟩
      simp [castText, Constant.sql, scalars]
    | cons e rest =>
      rw [hoperands] at hsource
      exact cast hsource hquiet
  · cases h

/-- A value turned into text. -/
lemma toString (h : (inner d aliases method receiver args).toStringText = .ok text) :
    Written d aliases
      ((receiver.or (method.operands receiver args).head?).toList.map .inner) [] text := by
  have hsubject : (inner d aliases method receiver args).subject? =
      (receiver.or (method.operands receiver args).head?).map fun e =>
        (e, (Part.inner e).text d aliases) := by
    rw [subject?_eq, operandTexts_inner]
    have hoperands : (inner d aliases method receiver args).operands =
        method.operands receiver args := rfl
    rw [hoperands]
    cases receiver with
    | some e => rfl
    | none => cases method.operands none args <;> rfl
  unfold toStringText at h
  rw [hsubject] at h
  cases hoperand : receiver.or (method.operands receiver args).head? with
  | none =>
    rw [hoperand] at h
    cases h
  | some e =>
    rw [hoperand] at h
    obtain ⟨t, ht, h⟩ := ok_of_bind h
    split at h
    · cases h
      have hformat : IsQuiet timestampFormat.toList := by decide
      have hform : Hushed {}
          (words "FORMAT_TIMESTAMP(CAST(" ++ [Span.hole ()] ++ words " AS TIMESTAMP), " ++
            [Span.leaf timestampFormat] ++ words ", 'UTC')") [] := by
        decide
      simpa using of_layout (fun _ => .inner e) (fun _ => t) hform (by simpa using hformat)
        (fun _ _ => ht) (by simp)
    · cases h
      exact cast ht (by decide)

/-- A conversion to the type that a method returns. -/
lemma conversion (h : (inner d aliases method receiver args).conversionText d = .ok text) :
    Written d aliases (((method.operands receiver args).take 1).map .inner) [] text := by
  obtain ⟨target, htarget, h⟩ := ok_of_bind h
  obtain ⟨ts, hts, h⟩ := ok_of_bind h
  have htexts := texts_of_allTexts hts
  generalize method.operands receiver args = es at htexts ⊢
  cases es with
  | nil =>
    cases htexts
    cases h
  | cons e rest =>
    cases htexts with
    | cons ht _ =>
      cases h
      exact cast ht (isQuiet_sqlType htarget)

/-- A count. -/
lemma count (h : (inner d aliases method receiver args).countText = .ok text) :
    Written d aliases ((Expr.countedOperands (method.operands receiver args)).map .inner) []
      text := by
  have hrows : Written d aliases [] [] "COUNT(*)" :=
    ⟨fun p hp => absurd hp not_mem_nil, words "COUNT(*)", ⟨rfl, rfl⟩, by simp, by simp,
      by simp⟩
  have hoperands : (inner d aliases method receiver args).operands =
      method.operands receiver args := rfl
  unfold countText at h
  rw [operandTexts_inner, hoperands] at h
  cases hes : method.operands receiver args with
  | nil =>
    rw [hes] at h
    cases h
    exact hrows
  | cons e rest =>
    rw [hes] at h
    cases e with
    | lambda params body =>
      cases h
      exact hrows
    | _ =>
      obtain ⟨t, ht, h⟩ := ok_of_bind h
      cases h
      exact around ht "COUNT(" ")" (by decide)

/-- A form of its own. -/
lemma special {rule : FunctionRule} (hmethod : method.name ∈ specialForms)
    (h : (inner d aliases method receiver args).specialText d rule = .ok text) :
    Written d aliases ((method.specialOperands receiver args).map .inner) [] text := by
  have hname : (inner d aliases method receiver args).method = method := rfl
  unfold specialText at h
  rw [hname] at h
  simp only [specialForms, mem_cons, not_mem_nil, or_false] at hmethod
  unfold Method.specialOperands
  rcases hmethod with hmethod | hmethod | hmethod | hmethod | hmethod
  all_goals simp only [hmethod] at h ⊢
  · exact toString h
  · exact conversion h
  · exact conversion h
  · obtain ⟨ts, hts, h⟩ := ok_of_bind h
    cases h
    exact caseForm (texts_of_allTexts hts)
  · exact count h

/-- A rule that is no form of its own. -/
lemma render {rule : FunctionRule} (hform : rule.writesForm method.name)
    (hspecial : rule.special = false) (hquiet : rule.isQuiet) {es : List Expr}
    (htexts : Texts d aliases (es.map .inner) ts)
    (hfree : rule.template.isSome → PlaceholderFreeTexts ts) (h : rule.render ts = .ok text) :
    Written d aliases ((rule.writtenOperands es).map .inner) [] text := by
  unfold FunctionRule.render at h
  split at h
  · next haccepts =>
    cases htemplate : rule.template with
    | none =>
      rw [htemplate] at h
      cases h
      have hname : IsQuiet rule.function.toList := by
        refine isQuiet_name ?_
        simpa [FunctionRule.isQuiet, hspecial, htemplate] using hquiet
      have hall : rule.writtenOperands es = es := by
        simp [FunctionRule.writtenOperands, htemplate]
      rw [hall]
      exact call hname htexts
    | some template =>
      rw [htemplate] at h
      cases h
      exact Written.template htemplate hform hspecial hquiet haccepts htexts
        (hfree (by rw [htemplate]; rfl))
  · cases h

/-- A call. -/
theorem scalarCall (hd : d.catalog.IsQuiet)
    (hfree : d.fillsTemplate method → ∀ ts,
      (inner d aliases method receiver args).allTexts = .ok ts → PlaceholderFreeTexts ts)
    (h : (inner d aliases method receiver args).text d = .ok text) :
    Written d aliases ((method.writtenOperands d receiver args).map .inner) [] text := by
  have hname : (inner d aliases method receiver args).method = method := rfl
  unfold CallTexts.text at h
  rw [hname] at h
  unfold Method.writtenOperands
  cases hrule : d.catalog.get? method.name with
  | none =>
    rw [hrule] at h
    exact unknown h
  | some rule =>
    rw [hrule] at h
    dsimp only at h ⊢
    split at h
    · obtain ⟨_, -, h⟩ := ok_of_bind h
      have hform := hd.writesForms _ _ hrule
      cases hspecial : rule.special with
      | true =>
        rw [hspecial] at h
        refine special ?_ h
        simpa [FunctionRule.writesForm, hspecial] using hform
      | false =>
        rw [hspecial] at h
        obtain ⟨ts, hts, h⟩ := ok_of_bind h
        refine render hform hspecial (hd.rules _ _ hrule) (texts_of_allTexts hts)
          (fun htemplate => hfree ?_ ts hts) h
        rw [Dialect.fillsTemplate, hrule]
        exact htemplate
    · cases h

/-! ## Expressions -/

/-- A member access in the filter. -/
lemma access {place : Place} {m : Member} (hcolumn : IsQuiet (Filter.columnText aliases m).toList)
    (h : Filter.accessText aliases place m (m.target.filterText d aliases .value) = .ok text) :
    Written d aliases (if Filter.writesTarget place m then [.value m.target] else []) [] text := by
  unfold Filter.accessText at h
  unfold Filter.writesTarget
  dsimp only at h
  cases hvalue : m.name == "Value" && m.target.type.isNullableBool with
  | true =>
    rw [hvalue] at h
    obtain ⟨t, ht, h⟩ := ok_of_bind h
    have ht : (Part.value m.target).text d aliases = .ok t := ht
    split at h
    · cases h
      exact around ht "(" " = false)" (by decide)
    · cases h
      exact around ht "(" " = true)" (by decide)
  | false =>
    rw [hvalue] at h
    cases hnegated : m.type.isBool && place == .negated with
    | true =>
      rw [hnegated] at h
      cases h
      exact bracketed hcolumn "(" " = false)" ⟨rfl, rfl⟩
    | false =>
      rw [hnegated] at h
      cases hpresence : m.name == "HasValue" && m.target.type.isNullable with
      | true =>
        rw [hpresence] at h
        obtain ⟨t, ht, h⟩ := ok_of_bind h
        cases h
        have ht : (Part.value m.target).text d aliases = .ok t := ht
        simp only [Bool.and_eq_true] at hpresence
        simp only [hpresence]
        exact (behind ht " IS NOT NULL" (by decide)).wrap place
      | false =>
        rw [hpresence] at h
        have hnone :
            (false || !false && m.name == "HasValue" && m.target.type.isNullable) = false :=
          hpresence
        rw [hnone]
        simp only [Bool.false_eq_true, if_false] at h
        split at h
        · cases h
          exact bracketed hcolumn "(" " = true)" ⟨rfl, rfl⟩
        · cases h
          exact (leaf hcolumn).wrap place

/-- A null test is written behind its operand. -/
lemma nullTest {op : BinaryOp} {test : String} (htest : Filter.nullTest? op = some test)
    (hp : p.text d aliases = .ok t) : Written d aliases [p] [] (t ++ test) := by
  cases op with
  | equal =>
    cases htest
    exact behind hp _ (by decide)
  | notEqual =>
    cases htest
    exact behind hp _ (by decide)
  | _ => cases htest

/-- A test on text. -/
lemma textTest {name : String} (hp : p.text d aliases = .ok t) (hq : q.text d aliases = .ok u)
    (h : Filter.textTest? name t u = some text) : Written d aliases [p, q] [] text := by
  unfold Filter.textTest? at h
  split_ifs at h
  · cases h
    exact between hp hq "INSTR(" ", " ") > 0" (by decide)
  · cases h
    exact between hp hq "STARTS_WITH(" ", " ")" (by decide)
  · cases h
    exact between hp hq "ENDS_WITH(" ", " ")" (by decide)

/-- A membership test. -/
lemma membership (place : Place) (hp : p.text d aliases = .ok t) (hq : q.text d aliases = .ok u) :
    Written d aliases [p, q] []
      (t ++ (if place == .negated then " NOT IN (" else " IN (") ++ u ++ ")") := by
  have hempty : ∀ b : String, t ++ b ++ u ++ ")" = "" ++ t ++ b ++ u ++ ")" := by simp
  rw [hempty]
  split
  · exact between hp hq "" " NOT IN (" ")" (by decide)
  · exact between hp hq "" " IN (" ")" (by decide)

/-! ### Records -/

/-- The comparison of two values. -/
def pairLayout (pair : Expr × Expr) : Layout Part :=
  [.hole (.value pair.1)] ++ words " = " ++ [.hole (.value pair.2)]

/-- Comparisons joined by AND. -/
lemma conj_layout {Ls : List (Layout Part)} (hLs : ∀ L ∈ Ls, L.isHushed {})
    (hfill : List.Forall₂ (fun L t => L.fill (Part.chars d aliases) = t.toList) Ls ts) :
    ∃ L : Layout Part, Hushed {} L (Ls.flatMap (compared {})) ∧ L.leaves = Ls.flatMap leaves ∧
      L.holes = Ls.flatMap holes ∧
        L.fill (Part.chars d aliases) = (JoinSql.conjText ts).toList := by
  have hsep : Separates Part " AND " := fun _ _ h => ⟨h.1, h.2⟩
  have hjoined := (Hushed.joined hsep hLs).append (hushed_bracket Part)
  rw [append_nil] at hjoined
  have hbrackets : ∃ L : Layout Part, Hushed {} L (Ls.flatMap (compared {})) ∧
      L.leaves = Ls.flatMap leaves ∧ L.holes = Ls.flatMap holes ∧
        L.fill (Part.chars d aliases) = ("(" ++ Text.joined " AND " ts ++ ")").toList :=
    ⟨words "(" ++ (joined " AND " Ls ++ words ")"), ⟨hjoined.isHushed, hjoined.compared⟩, by simp,
      by simp, by simp [Layout.fill_joined hfill]⟩
  cases hfill with
  | nil => exact hbrackets
  | @cons L t Ls ts hfirst hrest =>
    cases hrest with
    | nil =>
      refine ⟨L, ⟨hLs L (mem_singleton_self L), ?_⟩, ?_, ?_, hfirst⟩
      all_goals simp
    | cons _ _ => exact hbrackets

/-- An equality of records. -/
lemma composite {ls rs : List Expr} {us : List String} (hl : Texts d aliases (ls.map .value) ts)
    (hr : Texts d aliases (rs.map .value) us) :
    Written d aliases ((ls.zip rs).flatMap fun pair => [.value pair.1, .value pair.2])
      ((ls.zip rs).map fun pair => .value pair.2)
      (JoinSql.conjText (zipWith (fun a b => a ++ " = " ++ b) ts us)) := by
  have hfill : List.Forall₂ (fun L t => L.fill (Part.chars d aliases) = t.toList)
      ((ls.zip rs).map pairLayout) (zipWith (fun a b => a ++ " = " ++ b) ts us) := by
    rw [Texts, forall₂_map_left_iff] at hl hr
    induction hl generalizing rs us with
    | nil => exact .nil
    | cons hfirst _ ih =>
      cases hr with
      | nil => exact .nil
      | cons hsecond hrest =>
        refine .cons ?_ (ih hrest)
        simp [pairLayout, Part.chars_of_text hfirst, Part.chars_of_text hsecond]
  have hushed : ∀ L ∈ (ls.zip rs).map pairLayout, L.isHushed {} := by
    intro L hL
    obtain ⟨pair, -, rfl⟩ := mem_map.1 hL
    rfl
  obtain ⟨L, hL, hleaves, hholes, htext⟩ := conj_layout hushed hfill
  refine ⟨?_, L, ⟨hL.isHushed, hL.compared.trans ?_⟩, ?_, hholes.trans ?_, htext⟩
  · intro p hp
    obtain ⟨pair, hpair, hp⟩ := mem_flatMap.1 hp
    obtain ⟨hleft, hright⟩ := of_mem_zip hpair
    rw [mem_cons, mem_singleton] at hp
    rcases hp with rfl | rfl
    · exact hl.exists_text _ (mem_map_of_mem hleft)
    · exact hr.exists_text _ (mem_map_of_mem hright)
  · rw [flatMap_map, map_eq_flatMap]
    exact flatMap_congr fun pair _ => rfl
  · intro s hs
    rw [hleaves, flatMap_map, mem_flatMap] at hs
    obtain ⟨pair, -, hs⟩ := hs
    simp [pairLayout] at hs
  · rw [flatMap_map]
    exact flatMap_congr fun pair _ => by simp [pairLayout]

end Written

lemma Expr.compositeTexts?_eq (e : Expr) :
    e.compositeTexts? d aliases =
      e.recordValues?.map (map fun e => (Part.value e).text d aliases) := by
  cases e with
  | record typeName members =>
    rw [compositeTexts?, recordValues?, Option.map_some, map_map]
    congr 1
    induction members with
    | nil => rw [filterMembers]; rfl
    | cons member rest ih =>
      obtain ⟨name, e⟩ := member
      rw [filterMembers, ih]
      rfl
  | unary op operand type =>
    cases op with
    | convert =>
      rw [compositeTexts?, recordValues?]
      exact Expr.compositeTexts?_eq operand
    | not => simp [compositeTexts?, recordValues?]
    | negate => simp [compositeTexts?, recordValues?]
  | _ => simp [compositeTexts?, recordValues?]

/-- An operation becomes a null test or a comparison. -/
lemma Expr.filterText_binary (place : Place) (op : BinaryOp) (left right : Expr) :
    (Expr.binary op left right).filterText d aliases place =
      (Filter.nullTested? op left right).elim
        (Filter.comparisonText place op (left.compositeTexts? d aliases)
          (right.compositeTexts? d aliases)
          (left.filterText d aliases (Filter.operandPlace op))
          (right.filterText d aliases (Filter.operandPlace op)))
        fun tested => do
          return place.wrap ((← tested.1.filterText d aliases .value) ++ tested.2) := by
  rw [filterText]
  unfold Filter.nullTested?
  cases Filter.nullTest? op with
  | none => rfl
  | some test => cases right.isNull <;> cases left.isNull <;> rfl

/-- An operation in the filter. -/
lemma Written.operationParts
    (h : (Expr.binary op left right).filterText d aliases place = .ok text) :
    Written d aliases (Part.ofOperation op left right)
      (Part.comparands ⟨.filter place, .binary op left right⟩) text := by
  unfold Part.ofOperation Part.comparands
  dsimp only
  cases hnull : Filter.nullTested? op left right with
  | some found =>
    obtain ⟨operand, test⟩ := found
    have htest := (Filter.nullTest?_of_nullTested? hnull).1
    rw [Expr.filterText_binary, hnull, Option.elim_some] at h
    obtain ⟨t, ht, h⟩ := ok_of_bind h
    cases h
    exact (Written.nullTest (p := .value operand) htest ht).wrap place
  | none =>
    rw [Expr.filterText_binary, hnull, Option.elim_none, Expr.compositeTexts?_eq,
      Expr.compositeTexts?_eq] at h
    have hplain : (do return place.wrap (← Filter.operationText op
          (left.filterText d aliases (Filter.operandPlace op))
          (right.filterText d aliases (Filter.operandPlace op)))) = .ok text →
        Written d aliases [⟨.filter (Filter.operandPlace op), left⟩,
          ⟨.filter (Filter.operandPlace op), right⟩]
          (if op.endsWithSign then [.value right] else []) text := by
      intro h
      obtain ⟨s, hs, h⟩ := ok_of_bind h
      cases h
      obtain ⟨l, hl, hs⟩ := ok_of_bind hs
      obtain ⟨r, hr, hs⟩ := ok_of_bind hs
      cases hs
      have hwritten := Written.operation op (p := ⟨.filter (Filter.operandPlace op), left⟩)
        (q := ⟨.filter (Filter.operandPlace op), right⟩) hl hr
      cases hsign : op.endsWithSign with
      | true =>
        rw [hsign, operandPlace_of_endsWithSign hsign] at hwritten
        rw [operandPlace_of_endsWithSign hsign]
        exact hwritten.wrap place
      | false =>
        rw [hsign] at hwritten
        exact hwritten.wrap place
    unfold Filter.comparisonText at h
    unfold Filter.recordPairs?
    cases hop : op == .equal with
    | false =>
      rw [hop] at h
      exact hplain h
    | true =>
      rw [hop] at h
      cases hleft : left.recordValues? with
      | none =>
        rw [hleft] at h
        exact hplain h
      | some ls =>
        rw [hleft] at h
        cases hright : right.recordValues? with
        | none =>
          rw [hright] at h
          exact hplain h
        | some rs =>
          rw [hright] at h
          obtain ⟨s, hs, h⟩ := ok_of_bind h
          cases h
          obtain ⟨ts, us, hts, hus, -, rfl⟩ := compositeText_ok hs
          exact (Written.composite (Written.texts_of_map hts) (Written.texts_of_map hus)).wrap place

/-! ## Calls in the filter -/

/-- A call with its receiver and arguments as values. -/
abbrev CallTexts.values (d : Dialect) (aliases : AliasTable) (method : Method)
    (receiver : Option Expr) (args : List Expr) : CallTexts :=
  ⟨method, receiver, args, Expr.filterText? d aliases receiver, Expr.filterTexts d aliases args⟩

/-- The texts of a membership test. -/
lemma Filter.membership?_eq :
    Filter.membership? (.values d aliases method receiver args) =
      (Filter.memberOperands? method receiver args).map fun found =>
        ((Part.value found.1).text d aliases, (Part.value found.2).text d aliases) := by
  have hif : ∀ (test : Bool) (a b : Expr),
      (if test = true then some ((Part.value a).text d aliases, (Part.value b).text d aliases)
        else none) =
        (if test = true then some (a, b) else none).map fun found : Expr × Expr =>
          ((Part.value found.1).text d aliases, (Part.value found.2).text d aliases) := by
    intro test a b
    cases test <;> rfl
  unfold Filter.membership? Filter.memberOperands?
  dsimp only
  split
  · rfl
  · cases method.binding with
    | onInstance =>
      rcases receiver with _ | e
      · rfl
      · rcases args with _ | ⟨a, _ | ⟨b, rest⟩⟩
        · rfl
        · exact hif _ _ _
        · rfl
    | onType | extending =>
      rcases receiver with _ | e
      · rcases args with _ | ⟨a, _ | ⟨b, _ | ⟨c, rest⟩⟩⟩
        · rfl
        · rfl
        · exact hif _ _ _
        · rfl
      · rfl

/-- There is a text test exactly for the methods of the table. -/
lemma Filter.textTest?_isSome (name t u : String) :
    (Filter.textTest? name t u).isSome = Filter.textTests.contains name := by
  unfold Filter.textTest? Filter.textTests
  simp only [contains_cons, contains_nil, Bool.or_false]
  split_ifs with hcontains hstarts hends
  · simp [hcontains]
  · simp [hstarts]
  · simp [hends]
  · simp [hcontains, hstarts, hends]

/-- A call that is a test on text. -/
lemma Filter.plainCallText_textTest {target item : Expr}
    (htest : Filter.textOperands? method receiver args = some (target, item))
    (h : Filter.plainCallText d aliases (.values d aliases method receiver args) = .ok text) :
    ∃ t u, (Part.value target).text d aliases = .ok t ∧ (Part.value item).text d aliases = .ok u ∧
      Filter.textTest? method.name t u = some text := by
  unfold Filter.textOperands? at htest
  split at htest
  · next hbinding =>
    split at htest
    · next hall =>
      cases htest
      rw [Bool.and_eq_true] at hall
      unfold Filter.plainCallText at h
      simp only [hbinding, Expr.filterText?, Expr.filterTexts, hall.1, if_true] at h
      obtain ⟨t, ht, h⟩ := ok_of_bind h
      obtain ⟨u, hu, h⟩ := ok_of_bind h
      refine ⟨t, u, ht, hu, ?_⟩
      have hsome := Filter.textTest?_isSome method.name t u
      rw [hall.2] at hsome
      obtain ⟨form, hform⟩ := Option.isSome_iff_exists.1 hsome
      rw [hform] at h ⊢
      cases h
      rfl
    · cases htest
  · cases htest

/-- A call that is neither a membership test nor a test on text. -/
lemma Filter.plainCallText_scalar (htest : Filter.textOperands? method receiver args = none)
    (h : Filter.plainCallText d aliases (.values d aliases method receiver args) = .ok text) :
    (inner d aliases method receiver args).text d = .ok text := by
  unfold Filter.plainCallText at h
  dsimp only at h
  split at h
  · next hbinding hargs _ =>
    rcases args with _ | ⟨item, _ | ⟨other, rest⟩⟩
    · cases hargs
    · simp only [Filter.textOperands?, hbinding] at htest
      split at h
      · next hstring =>
        have hno : Filter.textTests.contains method.name = false := by
          rw [hstring] at htest
          simpa using htest
        obtain ⟨t, -, h⟩ := ok_of_bind h
        obtain ⟨u, -, h⟩ := ok_of_bind h
        have hnone := Filter.textTest?_isSome method.name t u
        rw [hno, Option.isSome_eq_false_iff, Option.isNone_iff_eq_none] at hnone
        rw [hnone] at h
        exact h
      · exact h
    · cases hargs
  · exact h

/-- A call in the filter. -/
lemma Written.callParts (hd : d.catalog.IsQuiet)
    (hfree : d.fillsTemplate method → ∀ ts,
      (inner d aliases method receiver args).allTexts = .ok ts → PlaceholderFreeTexts ts)
    (h : Filter.callText d aliases place (.values d aliases method receiver args) = .ok text) :
    Written d aliases (Part.ofCall d method receiver args) [] text := by
  unfold Filter.callText at h
  rw [Filter.membership?_eq] at h
  unfold Part.ofCall
  cases hmember : Filter.memberOperands? method receiver args with
  | some found =>
    obtain ⟨collection, item⟩ := found
    rw [hmember] at h
    obtain ⟨t, ht, h⟩ := ok_of_bind h
    obtain ⟨u, hu, h⟩ := ok_of_bind h
    cases h
    exact Written.membership place ht hu
  | none =>
    rw [hmember] at h
    obtain ⟨s, hs, h⟩ := ok_of_bind h
    cases h
    cases htest : Filter.textOperands? method receiver args with
    | some found =>
      obtain ⟨target, item⟩ := found
      obtain ⟨t, u, ht, hu, hform⟩ := Filter.plainCallText_textTest htest hs
      exact (Written.textTest ht hu hform).wrap place
    | none =>
      exact (Written.scalarCall hd hfree (Filter.plainCallText_scalar htest hs)).wrap place

/-! ## All parts -/

/-- The names of an expression are quiet, and its columns hold no placeholders. -/
structure Expr.HasQuietNames (aliases : AliasTable) (e : Expr) : Prop where
  param : ∀ p, Expr.param p ∈ e.nodes → IsQuiet p.name.toList
  column : ∀ m : Member, m.toExpr ∈ e.nodes → IsQuiet (Filter.columnText aliases m).toList
  placeholderFree : ∀ m : Member, m.toExpr ∈ e.nodes →
    Template.PlaceholderFree (Filter.columnText aliases m).toList

/-- What fills a template in a call holds no placeholders. -/
lemma placeholderFreeTexts_inner (hd : d.catalog.IsQuiet)
    (hnames : (Expr.call method receiver args).HasQuietNames aliases)
    (hfills : d.FillsSafely (.call method receiver args)) (htemplate : d.fillsTemplate method)
    (ts : List String) (hts : (inner d aliases method receiver args).allTexts = .ok ts) :
    PlaceholderFreeTexts ts := by
  have hcolumns : ∀ m : Member, m.toExpr ∈ (Expr.call method receiver args).nodes →
      OnTexts BothPlaceholderFree (Filter.columnText aliases m) (Filter.columnText aliases m) :=
    fun m hm => ⟨hnames.placeholderFree m hm, hnames.placeholderFree m hm⟩
  exact (hfills.placeholderFreeTexts hd.writesForms hcolumns (fun _ hx => hx) htemplate hts hts).1

/-- An expression inside a call is put together from its parts. -/
lemma Expr.scalar_written (hd : d.catalog.IsQuiet) {e : Expr} (hnames : e.HasQuietNames aliases)
    (hfills : d.FillsSafely e) (h : e.scalar d (Filter.memberText aliases) = .ok text) :
    Written d aliases (Part.parts d ⟨.scalar, e⟩) (Part.comparands ⟨.scalar, e⟩) text := by
  cases e with
  | param p =>
    cases h
    exact .leaf (hnames.param p (mem_singleton_self _))
  | member target name type isKey =>
    cases h
    exact .leaf (hnames.column ⟨target, name, type, isKey⟩ (mem_cons_self ..))
  | const value =>
    cases h
    exact .leaf (isQuiet_constant value)
  | call method receiver args =>
    exact Written.scalarCall hd (placeholderFreeTexts_inner hd hnames hfills) h
  | lambda params body => exact Written.part (p := .inner body) h
  | unary op operand type =>
    obtain ⟨t, ht, h⟩ := ok_of_bind h
    cases h
    cases op with
    | convert => exact Written.part (p := .inner operand) ht
    | not => exact Written.around (p := .inner operand) ht "NOT (" ")" (by decide)
    | negate => exact Written.before (p := .inner operand) ht "-" (by decide)
  | binary op left right =>
    obtain ⟨l, hl, h⟩ := ok_of_bind h
    obtain ⟨r, hr, h⟩ := ok_of_bind h
    cases h
    exact Written.operation (p := .inner left) (q := .inner right) op hl hr
  | cond test ifTrue ifFalse =>
    obtain ⟨t, ht, h⟩ := ok_of_bind h
    obtain ⟨a, ha, h⟩ := ok_of_bind h
    obtain ⟨b, hb, h⟩ := ok_of_bind h
    cases h
    exact Written.choice (p := .inner test) (q := .inner ifTrue) (r := .inner ifFalse) ht ha hb
  | record typeName members => cases h

/-- An expression in the filter is put together from its parts. -/
lemma Expr.filterText_written (hd : d.catalog.IsQuiet) {e : Expr} (hnames : e.HasQuietNames aliases)
    (hfills : d.FillsSafely e) (h : e.filterText d aliases place = .ok text) :
    Written d aliases (Part.parts d ⟨.filter place, e⟩) (Part.comparands ⟨.filter place, e⟩)
      text := by
  cases e with
  | param p =>
    rw [filterText] at h
    cases h
    exact (Written.leaf (hnames.param p (mem_singleton_self _))).wrap place
  | member target name type isKey =>
    rw [filterText] at h
    exact Written.access (m := ⟨target, name, type, isKey⟩)
      (hnames.column _ (mem_cons_self ..)) h
  | const value =>
    rw [filterText] at h
    cases h
    exact (Written.leaf (isQuiet_constant value)).wrap place
  | call method receiver args =>
    rw [filterText] at h
    exact Written.callParts hd (placeholderFreeTexts_inner hd hnames hfills) h
  | lambda params body =>
    simp only [filterText] at h
    cases place with
    | value => exact Written.part (p := .value body) h
    | condition => exact Written.part (p := ⟨.filter .condition, body⟩) h
    | negated =>
      obtain ⟨t, ht, h⟩ := ok_of_bind h
      cases h
      exact Written.around (p := ⟨.filter .condition, body⟩) ht "NOT (" ")" (by decide)
  | unary op operand type =>
    cases op with
    | convert =>
      rw [filterText] at h
      exact Written.part (p := ⟨.filter place, operand⟩) h
    | not =>
      rw [filterText] at h
      obtain ⟨t, ht, h⟩ := ok_of_bind h
      cases h
      exact (Written.part (p := ⟨.filter .negated, operand⟩) ht).wrap place
    | negate =>
      rw [filterText] at h
      obtain ⟨t, ht, h⟩ := ok_of_bind h
      cases h
      exact (Written.before (p := .value operand) ht "-" (by decide)).wrap place
  | binary op left right => exact Written.operationParts h
  | cond test ifTrue ifFalse =>
    rw [filterText] at h
    obtain ⟨t, ht, h⟩ := ok_of_bind h
    obtain ⟨a, ha, h⟩ := ok_of_bind h
    obtain ⟨b, hb, h⟩ := ok_of_bind h
    cases h
    exact (Written.choice (p := ⟨.filter .condition, test⟩) (q := .value ifTrue)
      (r := .value ifFalse) ht ha hb).wrap place
  | record typeName members =>
    rw [filterText] at h
    cases h

/-- A part that can be written is put together from its parts. -/
theorem Part.written (hd : d.catalog.IsQuiet) (hnames : p.expr.HasQuietNames aliases)
    (hfills : d.FillsSafely p.expr) (h : p.text d aliases = .ok text) :
    Written d aliases (p.parts d) p.comparands text := by
  obtain ⟨writer, e⟩ := p
  cases writer with
  | filter place => exact Expr.filterText_written hd hnames hfills h
  | scalar => exact Expr.scalar_written hd hnames hfills h

end

end StreamQuery
