import Mathlib.Data.List.Forall2
import StreamQuery.Proofs.JoinSql
import StreamQuery.Proofs.Templates

/-!
# Scalar texts, form by form

A scalar text is put together from the texts of its leaves by sound templates.  A `FillRelation` is
a relation between texts that these templates keep, and `Expr.scalar_inStep` is the induction over
expressions: two ways of writing members fail with the same fault, or write related texts.  The
arguments of calls with a template must hold no placeholders (`PartsInStep`).  A relation between
texts without placeholders, `FormRelation`, needs no such condition.
-/

namespace StreamQuery

open List

variable {R : List Char → List Char → Prop} {write write' : MemberText} {nodes : List Expr}

/-! ## Computations that keep step -/

/-- Two computations fail with the same fault, or give related results. -/
inductive InStep {α β : Type} (S : α → β → Prop) : Except Fault α → Except Fault β → Prop
  | error (fault : Fault) : InStep S (.error fault) (.error fault)
  | ok {a : α} {b : β} (h : S a b) : InStep S (.ok a) (.ok b)

namespace InStep

variable {α β γ δ : Type} {S : α → β → Prop} {T : γ → δ → Prop}

/-- Computations that go on in step keep step. -/
lemma bind {x : Except Fault α} {y : Except Fault β} {f : α → Except Fault γ}
    {g : β → Except Fault δ} (h : InStep S x y) (hf : ∀ a b, S a b → InStep T (f a) (g b)) :
    InStep T (x >>= f) (y >>= g) := by
  cases h with
  | error fault => exact .error fault
  | ok h => exact hf _ _ h

/-- Computations on the members of two lists keep step if they do so one by one. -/
lemma mapM {P : α → β → Prop} {f : α → Except Fault γ} {g : β → Except Fault δ}
    (hf : ∀ a b, P a b → InStep T (f a) (g b)) {xs : List α} {ys : List β}
    (h : List.Forall₂ P xs ys) : InStep (List.Forall₂ T) (xs.mapM f) (ys.mapM g) := by
  induction h with
  | nil => exact .ok .nil
  | cons hx _ ih =>
    rw [mapM_cons, mapM_cons]
    refine (hf _ _ hx).bind fun a b hab => ih.bind fun as bs habs => ?_
    exact .ok (.cons hab habs)

/-- Lists that keep step one by one keep step. -/
lemma all {xs : List (Except Fault α)} {ys : List (Except Fault β)}
    (h : List.Forall₂ (InStep S) xs ys) : InStep (List.Forall₂ S) (xs.mapM id) (ys.mapM id) :=
  mapM (fun _ _ hab => hab) h

end InStep

/-! ## Relations that sound templates keep -/

namespace Template

/-- Characters of a template. -/
def words (s : String) : Template :=
  s.toList.map Piece.char

/-- The place of the argument with a number. -/
def arg (i : Nat) (h : i < 10 := by decide) : Template :=
  [.hole ⟨i, h⟩]

variable (args : List (List Char))

@[simp] lemma fill_arg (i : Nat) (h : i < 10) : fill args (arg i h) = args.getD i [] :=
  append_nil _

@[simp] lemma fill_append (t u : Template) : fill args (t ++ u) = t.fill args ++ u.fill args := by
  induction t with
  | nil => rfl
  | cons piece t ih =>
    cases piece with
    | char c => exact congrArg (c :: ·) ih
    | hole i =>
      rw [fill, append_assoc, ← ih]
      rfl

@[simp] lemma fill_words (s : String) : fill args (words s) = s.toList := by
  unfold words
  induction s.toList with
  | nil => rfl
  | cons c cs ih => exact congrArg (c :: ·) ih

end Template

/-- Two texts whose characters are related. -/
def OnTexts (R : List Char → List Char → Prop) (a b : String) : Prop :=
  R a.toList b.toList

/-- A relation that sound templates keep.  A text without quotation marks, parentheses and braces is
related to itself. -/
structure FillRelation (R : List Char → List Char → Prop) : Prop where
  plain : ∀ s : List Char, s.all Template.isPlain = true → R s s
  /-- A sound template is filled with related arguments to related texts. -/
  fill : ∀ (t : Template) (as bs : List (List Char)), t.IsSound → t.fits as.length = true →
    List.Forall₂ R as bs → R (t.fill as) (t.fill bs)

/-- A relation between texts without placeholders that sound templates keep. -/
structure FormRelation (R : List Char → List Char → Prop) : Prop extends FillRelation R where
  placeholderFree : ∀ a b, R a b → Template.PlaceholderFree a ∧ Template.PlaceholderFree b

/-- Texts without placeholders. -/
def PlaceholderFreeTexts (texts : List String) : Prop :=
  ∀ text ∈ texts, Template.PlaceholderFree text.toList

/-- A sound template with a number of holes. -/
structure TextForm (n : Nat) where
  template : Template
  sound : template.IsSound := by decide
  fits : template.fits n = true := by decide

/-- The text of a form with the given arguments. -/
def TextForm.text {n : Nat} (f : TextForm n) (args : List String) : String :=
  String.ofList (f.template.fill (args.map String.toList))

namespace FillRelation

variable {R : List Char → List Char → Prop}

/-- A form writes related texts for related arguments. -/
lemma form (hR : FillRelation R) {n : Nat} (f : TextForm n) {as bs : List String}
    (hn : as.length = n) (h : List.Forall₂ (OnTexts R) as bs) :
    OnTexts R (f.text as) (f.text bs) := by
  unfold OnTexts TextForm.text
  rw [String.toList_ofList, String.toList_ofList]
  refine hR.fill f.template _ _ f.sound ?_ ?_
  · rw [length_map, hn]
    exact f.fits
  · rw [forall₂_map_left_iff, forall₂_map_right_iff]
    exact h

/-- Plain characters are related to themselves. -/
lemma self (hR : FillRelation R) {s : String} (hs : s.toList.all Template.isPlain) :
    OnTexts R s s :=
  hR.plain s.toList hs

end FillRelation

/-! ## The forms of texts -/

namespace TextForm

open Template

/-- A call with the text of its arguments. -/
@[simps template] def call : TextForm 2 := { template := arg 0 ++ words "(" ++ arg 1 ++ words ")" }

/-- A list and one text more. -/
@[simps template] def listed : TextForm 2 := { template := arg 0 ++ words ", " ++ arg 1 }

/-- A conversion. -/
@[simps template] def cast : TextForm 2 where
  template := words "CAST(" ++ arg 0 ++ words " AS " ++ arg 1 ++ words ")"

/-- A timestamp turned into text. -/
@[simps template] def timestamp : TextForm 1 where
  template := words "FORMAT_TIMESTAMP(CAST(" ++ arg 0 ++ words " AS TIMESTAMP), " ++
    words CallTexts.timestampFormat ++ words ", 'UTC')"

/-- A choice between two values. -/
@[simps template] def choice : TextForm 3 where
  template := words "CASE WHEN " ++ arg 0 ++ words " THEN " ++ arg 1 ++ words " ELSE " ++
    arg 2 ++ words " END"

/-- The first branches of a case form, and one more. -/
@[simps template] def branch : TextForm 3 where
  template := arg 0 ++ words " WHEN " ++ arg 1 ++ words " THEN " ++ arg 2

/-- The branches of a case form with its last value. -/
@[simps template] def otherwise : TextForm 2 where
  template := arg 0 ++ words " ELSE " ++ arg 1 ++ words " END"

/-- The branches of a case form without a last value. -/
@[simps template] def ended : TextForm 1 := { template := arg 0 ++ words " END" }

/-- A count of values. -/
@[simps template] def count : TextForm 1 := { template := words "COUNT(" ++ arg 0 ++ words ")" }

/-- A count of rows. -/
@[simps template] def countRows : TextForm 0 := { template := words "COUNT(*)" }

/-- A logical negation. -/
@[simps template] def negation : TextForm 1 := { template := words "NOT (" ++ arg 0 ++ words ")" }

/-- An arithmetic negation. -/
@[simps template] def minus : TextForm 1 := { template := words "-" ++ arg 0 }

/-- The first value that is not null. -/
@[simps template] def coalesce : TextForm 2 where
  template := words "COALESCE(" ++ arg 0 ++ words ", " ++ arg 1 ++ words ")"

/-- An operation in brackets, with its sign in the middle. -/
@[simps template] def operation : TextForm 3 where
  template := words "(" ++ arg 0 ++ words " " ++ arg 1 ++ words " " ++ arg 2 ++ words ")"

/-- A decimal type. -/
@[simps template] def decimal : TextForm 2 where
  template := words "DECIMAL(" ++ arg 0 ++ words ", " ++ arg 1 ++ words ")"

/-- A text with a test behind it. -/
@[simps template] def tested : TextForm 2 := { template := arg 0 ++ words " " ++ arg 1 }

/-- A text in parentheses. -/
@[simps template] def bracketed : TextForm 1 := { template := words "(" ++ arg 0 ++ words ")" }

/-- An operation without brackets, with its sign in the middle. -/
@[simps template] def bare : TextForm 3 where
  template := arg 0 ++ words " " ++ arg 1 ++ words " " ++ arg 2

/-- A membership test, with its words in the middle. -/
@[simps template] def among : TextForm 3 where
  template := arg 0 ++ words " " ++ arg 1 ++ words " (" ++ arg 2 ++ words ")"

/-- A search for a text in another. -/
@[simps template] def search : TextForm 2 where
  template := words "INSTR(" ++ arg 0 ++ words ", " ++ arg 1 ++ words ") > 0"

lemma text_eq {n : Nat} {f : TextForm n} {args : List String} {s : String}
    (h : s.toList = f.template.fill (args.map String.toList)) : s = f.text args := by
  apply String.toList_inj.1
  rw [h, text, String.toList_ofList]

end TextForm

namespace FillRelation

variable {R : List Char → List Char → Prop} (hR : FillRelation R) {a b c a' b' c' : String}

variable {as bs : List String}

include hR

/-- Casts of related texts are related. -/
lemma cast (ha : OnTexts R a a') (hb : OnTexts R b b') :
    OnTexts R (castText a b) (castText a' b') := by
  have htext : ∀ a b, castText a b = TextForm.cast.text [a, b] := fun a b =>
    TextForm.text_eq (by simp [castText])
  rw [htext, htext]
  exact hR.form TextForm.cast rfl (.cons ha (.cons hb .nil))

/-- Choices between related texts are related. -/
lemma choice (ha : OnTexts R a a') (hb : OnTexts R b b') (hc : OnTexts R c c') :
    OnTexts R (caseText a b c) (caseText a' b' c') := by
  have htext : ∀ a b c, caseText a b c = TextForm.choice.text [a, b, c] := by
    intro a b c
    apply TextForm.text_eq
    delta caseText
    simp
  rw [htext, htext]
  exact hR.form TextForm.choice rfl (.cons ha (.cons hb (.cons hc .nil)))

/-- Signs in front of related texts are related. -/
lemma unary (op : UnaryOp) (ha : OnTexts R a a') : OnTexts R (op.text a) (op.text a') := by
  cases op with
  | convert => exact ha
  | not =>
    have htext : ∀ a, UnaryOp.text .not a = TextForm.negation.text [a] := fun a =>
      TextForm.text_eq (by simp [UnaryOp.text])
    rw [htext, htext]
    exact hR.form TextForm.negation rfl (.cons ha .nil)
  | negate =>
    have htext : ∀ a, UnaryOp.text .negate a = TextForm.minus.text [a] := fun a =>
      TextForm.text_eq (by simp [UnaryOp.text])
    rw [htext, htext]
    exact hR.form TextForm.minus rfl (.cons ha .nil)

/-- Operations on related texts are related. -/
lemma binary (op : BinaryOp) (ha : OnTexts R a a') (hb : OnTexts R b b') :
    OnTexts R (op.text a b) (op.text a' b') := by
  by_cases hop : op = .coalesce
  · have hcall : ∀ a b, BinaryOp.text .coalesce a b = "COALESCE(" ++ a ++ ", " ++ b ++ ")" :=
      fun a b => rfl
    have htext : ∀ a b, BinaryOp.text .coalesce a b = TextForm.coalesce.text [a, b] := fun a b =>
      TextForm.text_eq (by simp [hcall])
    rw [hop, htext, htext]
    exact hR.form TextForm.coalesce rfl (.cons ha (.cons hb .nil))
  · have hbrackets : ∀ a b, op.text a b = "(" ++ a ++ " " ++ op.symbol ++ " " ++ b ++ ")" := by
      intro a b
      cases op
      case coalesce => exact absurd rfl hop
      all_goals rfl
    have htext : ∀ a b, op.text a b = TextForm.operation.text [a, op.symbol, b] := fun a b =>
      TextForm.text_eq (by simp [hbrackets])
    have hsign : OnTexts R op.symbol op.symbol := hR.self (by cases op <;> decide)
    rw [htext, htext]
    exact hR.form TextForm.operation rfl (.cons ha (.cons hsign (.cons hb .nil)))

/-- Related texts are joined to related texts, if this holds of two of them. -/
lemma joined_of {sep : String}
    (hsep : ∀ {a b a' b' : String}, OnTexts R a a' → OnTexts R b b' →
      OnTexts R (a ++ sep ++ b) (a' ++ sep ++ b'))
    (h : List.Forall₂ (OnTexts R) as bs) : OnTexts R (Text.joined sep as) (Text.joined sep bs) := by
  have hjoined :
      ∀ a b as, Text.joined sep (a :: b :: as) = a ++ sep ++ Text.joined sep (b :: as) := by
    intro a b as
    rw [Text.joined, String.intercalate_cons_cons]
    rfl
  induction h with
  | nil => exact hR.self (s := "") (by decide)
  | cons ha hrest ih =>
    cases hrest with
    | nil => exact ha
    | cons hb _ =>
      rw [hjoined, hjoined]
      exact hsep ha ih

/-- Lists of related texts are related. -/
lemma joined (h : List.Forall₂ (OnTexts R) as bs) :
    OnTexts R (Text.joined ", " as) (Text.joined ", " bs) := by
  have htext : ∀ a b, a ++ ", " ++ b = TextForm.listed.text [a, b] := fun a b =>
    TextForm.text_eq (by simp)
  refine hR.joined_of (fun ha hb => ?_) h
  rw [htext, htext]
  exact hR.form TextForm.listed rfl (.cons ha (.cons hb .nil))

/-- Calls of a function with a plain name on related arguments are related. -/
lemma call {name : String} (hname : name.toList.all Template.isPlain) {as bs : List String}
    (h : List.Forall₂ (OnTexts R) as bs) :
    OnTexts R (name ++ "(" ++ Text.joined ", " as ++ ")")
      (name ++ "(" ++ Text.joined ", " bs ++ ")") := by
  have htext : ∀ args, name ++ "(" ++ args ++ ")" = TextForm.call.text [name, args] := fun args =>
    TextForm.text_eq (by simp)
  rw [htext, htext]
  exact hR.form TextForm.call rfl (.cons (hR.self hname) (.cons (hR.joined h) .nil))

/-- The branches of case forms behind related texts. -/
lemma branches {as bs : List String} (h : List.Forall₂ (OnTexts R) as bs) {a a' : String}
    (ha : OnTexts R a a') :
    OnTexts R (a ++ caseBranches as ++ " END") (a' ++ caseBranches bs ++ " END") := by
  match as, bs, h with
  | [], [], _ =>
    have htext : ∀ a, a ++ caseBranches [] ++ " END" = TextForm.ended.text [a] := fun a =>
      TextForm.text_eq (by simp [caseBranches])
    rw [htext, htext]
    exact hR.form TextForm.ended rfl (.cons ha .nil)
  | [last], [last'], .cons hlast .nil =>
    have htext : ∀ a last, a ++ caseBranches [last] ++ " END" =
        TextForm.otherwise.text [a, last] := fun a last =>
      TextForm.text_eq (by simp [caseBranches])
    rw [htext, htext]
    exact hR.form TextForm.otherwise rfl (.cons ha (.cons hlast .nil))
  | test :: value :: as, test' :: value' :: bs, .cons htest (.cons hvalue hrest) =>
    have htext : ∀ a test value as, a ++ caseBranches (test :: value :: as) ++ " END" =
        TextForm.branch.text [a, test, value] ++ caseBranches as ++ " END" := by
      intro a test value as
      have hbranch : a ++ " WHEN " ++ test ++ " THEN " ++ value =
          TextForm.branch.text [a, test, value] :=
        TextForm.text_eq (by simp)
      rw [← hbranch, caseBranches]
      simp only [String.append_assoc]
    rw [htext, htext]
    exact branches hrest
      (hR.form TextForm.branch rfl (.cons ha (.cons htest (.cons hvalue .nil))))

/-- A rule of a plain form writes related texts for related arguments. -/
lemma render {rule : FunctionRule} {method : String} (hrule : rule.writesForm method)
    (hspecial : rule.special = false) (h : List.Forall₂ (OnTexts R) as bs)
    (hfree : rule.template.isSome → PlaceholderFreeTexts as ∧ PlaceholderFreeTexts bs) :
    InStep (OnTexts R) (rule.render as) (rule.render bs) := by
  unfold FunctionRule.writesForm at hrule
  unfold FunctionRule.render
  rw [hspecial, if_neg (by decide)] at hrule
  rw [← h.length_eq]
  split
  · next haccepts =>
    cases htemplate : rule.template with
    | none =>
      rw [htemplate] at hrule
      exact .ok (hR.call hrule h)
    | some text =>
      rw [htemplate] at hrule
      simp only [Bool.and_eq_true, beq_iff_eq, decide_eq_true_eq] at hrule
      obtain ⟨⟨htext, hsound⟩, hfits⟩ := hrule
      have hcount : rule.minArgs ≤ as.length := by
        simp only [FunctionRule.accepts, Bool.and_eq_true, decide_eq_true_eq] at haccepts
        exact haccepts.1
      have hfits' := Template.fits_of_le hfits hcount
      obtain ⟨hleft, hright⟩ := hfree (by rw [htemplate]; rfl)
      refine .ok ?_
      unfold OnTexts
      rw [Template.toList_fillFrom htext hsound hfits' hleft,
        Template.toList_fillFrom htext hsound (h.length_eq ▸ hfits') hright]
      refine hR.fill _ _ _ hsound (by rwa [length_map]) ?_
      rw [forall₂_map_left_iff, forall₂_map_right_iff]
      exact h
  · exact .error _

end FillRelation

/-- Related texts hold no placeholders. -/
lemma FormRelation.placeholderFreeTexts (hR : FormRelation R) {as bs : List String}
    (h : List.Forall₂ (OnTexts R) as bs) : PlaceholderFreeTexts as ∧ PlaceholderFreeTexts bs := by
  constructor
  · intro arg harg
    obtain ⟨i, hi, rfl⟩ := getElem_of_mem harg
    exact (hR.placeholderFree _ _ (h.get hi (h.length_eq ▸ hi))).1
  · intro arg harg
    obtain ⟨i, hi, rfl⟩ := getElem_of_mem harg
    exact (hR.placeholderFree _ _ (h.get (h.length_eq ▸ hi) hi)).2

/-! ## Constants and types -/

lemma isPlain_of_isNumeral {cs : List Char} (h : isNumeral cs) : cs.all Template.isPlain := by
  have hdigit : ∀ c : Char, c.isDigit → Template.isPlain c := by
    intro c hc
    have hall : ∀ n < 0x80, (Char.ofNat n).isDigit →
        Template.isPlain (Char.ofNat n) := by
      decide
    exact Text.ascii_induction (P := fun c => c.isDigit → Template.isPlain c) hall
      (Text.isNamePart_ascii (by simp [Text.isNamePart, Char.isAlphanum, hc])) hc
  have hunsigned : ∀ cs : List Char, isUnsigned cs → cs.all Template.isPlain := by
    intro cs hcs
    rw [all_eq_true]
    intro c hc
    rcases isDigit_or_point_of_isUnsigned hcs hc with hc | rfl
    · exact hdigit c hc
    · decide
  unfold isNumeral at h
  split at h
  · rw [all_cons, hunsigned _ h]
    rfl
  · exact hunsigned _ h

mutual

/-- The strings of a constant. -/
def Constant.strings : Constant → List String
  | .string value => [value]
  | .list items => stringsOf items
  | _ => []

/-- The strings of a list of constants. -/
def Constant.stringsOf : List Constant → List String
  | [] => []
  | item :: rest => item.strings ++ stringsOf rest

end

namespace FillRelation

variable {R : List Char → List Char → Prop}

section

variable (hR : FillRelation R)

include hR

lemma double (value : Double) : OnTexts R value.text value.text := by
  cases hspecial : value.isSpecial with
  | false => exact hR.self (isPlain_of_isNumeral (isNumeral_double hspecial))
  | true =>
    refine hR.self ?_
    unfold Double.text
    dsimp only
    rw [hspecial, if_pos rfl]
    split
    · decide
    · cases value.isNegative <;> decide

lemma decimalType (size : DecimalSize) : OnTexts R size.sqlType size.sqlType := by
  have hnumber : ∀ n : Nat, OnTexts R (toString n) (toString n) := fun n =>
    hR.self (isPlain_of_isNumeral (isNumeral_int n))
  have htext :
      size.sqlType = TextForm.decimal.text [toString size.precision, toString size.scale] := by
    apply TextForm.text_eq
    delta DecimalSize.sqlType
    simp
  rw [htext]
  exact hR.form TextForm.decimal rfl (.cons (hnumber _) (.cons (hnumber _) .nil))

/-- The name of a type is related to itself. -/
lemma sqlType (type : DataType) (settings : DecimalSettings) :
    InStep (OnTexts R) (type.sqlType settings) (type.sqlType settings) := by
  unfold DataType.sqlType
  cases type.underlying with
  | decimal => exact .ok (hR.decimalType _)
  | nullable _ => exact .error _
  | list _ => exact .error _
  | grouping _ _ => exact .error _
  | record _ => exact .error _
  | unknown => exact .error _
  | _ => exact .ok (hR.self (by decide))

lemma suggestedType (method : String) (settings : DecimalSettings) :
    OnTexts R (Function.suggestedType method settings) (Function.suggestedType method settings) :=
  Function.suggestedType_induction (P := fun name => OnTexts R name name) method settings
    (hR.decimalType _) fun name hname => hR.self (by revert name; decide)

end

mutual

/-- A constant is related to itself if the literals of its strings are. -/
theorem constant (hR : FillRelation R) (value : Constant)
    (h : ∀ s ∈ value.strings, OnTexts R (Constant.quoted s) (Constant.quoted s)) :
    OnTexts R value.sql value.sql := by
  match value with
  | .null => exact hR.self (by decide)
  | .bool true => exact hR.self (by decide)
  | .bool false => exact hR.self (by decide)
  | .int n => exact hR.self (isPlain_of_isNumeral (isNumeral_int n))
  | .double d => exact hR.double d
  | .string s => exact h s (mem_singleton_self s)
  | .list items => exact hR.joined (constants hR items h)

/-- The same for the members of a list of constants. -/
theorem constants (hR : FillRelation R) (items : List Constant)
    (h : ∀ s ∈ Constant.stringsOf items, OnTexts R (Constant.quoted s) (Constant.quoted s)) :
    List.Forall₂ (OnTexts R) (Constant.sqlItems items) (Constant.sqlItems items) := by
  match items with
  | [] => exact .nil
  | item :: rest =>
    exact .cons (constant hR item fun s hs => h s (mem_append_left _ hs))
      (constants hR rest fun s hs => h s (mem_append_right _ hs))

end

end FillRelation

/-! ## Calls -/

/-- The receiver with its text, or else the first operand with its text. -/
lemma CallTexts.subject?_eq (c : CallTexts) :
    c.subject? = (c.receiver.bind fun e => c.receiverText.map (Prod.mk e)).or
      (c.operands.head?.bind fun e => c.operandTexts.head?.map (Prod.mk e)) := by
  unfold subject?
  cases c.receiver <;> cases c.receiverText <;> cases c.operands <;> cases c.operandTexts <;> rfl

/-- True when the calls of a method are written by filling a template. -/
def Dialect.fillsTemplate (d : Dialect) (method : Method) : Bool :=
  (d.catalog.get? method.name).any fun rule => rule.template.isSome

/-- Two calls of one method on the same expressions whose texts keep step. -/
structure CallTexts.Matches (R : List Char → List Char → Prop) (c c' : CallTexts) : Prop where
  method : c'.method = c.method
  receiver : c'.receiver = c.receiver
  args : c'.args = c.args
  receiverText : Option.Rel (InStep (OnTexts R)) c.receiverText c'.receiverText
  argTexts : List.Forall₂ (InStep (OnTexts R)) c.argTexts c'.argTexts

namespace CallTexts.Matches

variable {R : List Char → List Char → Prop} {c c' : CallTexts}

lemma operands (h : Matches R c c') : c'.operands = c.operands := by
  unfold CallTexts.operands
  rw [h.method, h.receiver, h.args]

lemma operandTexts (h : Matches R c c') :
    List.Forall₂ (InStep (OnTexts R)) c.operandTexts c'.operandTexts := by
  have hreceiver : List.Forall₂ (InStep (OnTexts R)) c.receiverText.toList
      c'.receiverText.toList := by
    generalize c.receiverText = x, c'.receiverText = y, h.receiverText = hxy
    cases hxy with
    | none => exact .nil
    | some htext => exact .cons htext .nil
  unfold CallTexts.operandTexts Method.operands
  rw [h.method]
  cases c.method.binding with
  | onInstance => exact rel_append hreceiver h.argTexts
  | onType => exact h.argTexts
  | extending => exact forall₂_drop 1 h.argTexts

lemma allTexts (h : Matches R c c') : InStep (List.Forall₂ (OnTexts R)) c.allTexts c'.allTexts :=
  InStep.all h.operandTexts

lemma firstText (h : Matches R c c') :
    Option.Rel (InStep (OnTexts R)) c.operandTexts.head? c'.operandTexts.head? := by
  generalize c.operandTexts = xs, c'.operandTexts = ys, h.operandTexts = htexts
  cases htexts with
  | nil => exact .none
  | cons htext _ => exact .some htext

lemma subject? (h : Matches R c c') :
    Option.Rel (fun s s' => s'.1 = s.1 ∧ InStep (OnTexts R) s.2 s'.2) c.subject? c'.subject? := by
  have hpair : ∀ (e : Option Expr) {x y : Option (Except Fault String)},
      Option.Rel (InStep (OnTexts R)) x y →
      Option.Rel (fun s s' => s'.1 = s.1 ∧ InStep (OnTexts R) s.2 s'.2)
        (e.bind fun e => x.map (Prod.mk e)) (e.bind fun e => y.map (Prod.mk e)) := by
    intro e x y hxy
    cases e with
    | none => exact .none
    | some e =>
      cases hxy with
      | none => exact .none
      | some htext => exact .some ⟨rfl, htext⟩
  rw [subject?_eq, subject?_eq, h.receiver, h.operands]
  generalize c.receiver.bind _ = x, c.receiver.bind _ = y, hpair c.receiver h.receiverText = hxy
  cases hxy with
  | none => exact hpair c.operands.head? h.firstText
  | some hboth => exact .some hboth

section

variable (h : Matches R c c') (hR : FillRelation R)

include h hR

/-- Conversions to text keep step. -/
lemma toStringText : InStep (OnTexts R) c.toStringText c'.toStringText := by
  have htext : ∀ text, "FORMAT_TIMESTAMP(CAST(" ++ text ++ " AS TIMESTAMP), " ++ timestampFormat ++
      ", 'UTC')" = TextForm.timestamp.text [text] := fun text =>
    TextForm.text_eq (by simp)
  unfold CallTexts.toStringText
  generalize c.subject? = x, c'.subject? = y, h.subject? = hxy
  cases hxy with
  | none => exact .error _
  | @some s s' hs =>
    obtain ⟨he, hstep⟩ := hs
    dsimp only
    rw [he]
    refine hstep.bind fun text text' hrelated => ?_
    split
    · rw [htext, htext]
      exact .ok (hR.form TextForm.timestamp rfl (.cons hrelated .nil))
    · exact .ok (hR.cast hrelated (hR.self (by decide)))

/-- Conversions by name keep step. -/
lemma conversionText (d : Dialect) :
    InStep (OnTexts R) (c.conversionText d) (c'.conversionText d) := by
  unfold CallTexts.conversionText
  rw [h.method]
  refine (hR.sqlType _ _).bind fun target target' htarget => h.allTexts.bind fun as bs hargs => ?_
  cases hargs with
  | nil => exact .error _
  | cons hsource _ => exact .ok (hR.cast hsource htarget)

/-- Counts of related operands keep step. -/
lemma countText : InStep (OnTexts R) c.countText c'.countText := by
  have hrows : OnTexts R "COUNT(*)" "COUNT(*)" := by
    have htext : "COUNT(*)" = TextForm.countRows.text [] :=
      TextForm.text_eq (by simp)
    rw [htext]
    exact hR.form TextForm.countRows rfl .nil
  have htext : ∀ text, "COUNT(" ++ text ++ ")" = TextForm.count.text [text] := fun text =>
    TextForm.text_eq (by simp)
  unfold CallTexts.countText
  rw [h.operands]
  generalize c.operandTexts = xs, c'.operandTexts = ys, h.operandTexts = htexts
  cases c.operands with
  | nil => exact .ok hrows
  | cons e rest =>
    cases htexts with
    | nil => exact .ok hrows
    | cons hstep _ =>
      dsimp only
      split
      · exact .ok hrows
      · refine hstep.bind fun text text' hrelated => ?_
        rw [htext, htext]
        exact .ok (hR.form TextForm.count rfl (.cons hrelated .nil))

/-- Special forms of related operands keep step. -/
lemma specialText (d : Dialect) {rule : FunctionRule} (hmethod : c.method.name ∈ specialForms) :
    InStep (OnTexts R) (c.specialText d rule) (c'.specialText d rule) := by
  unfold CallTexts.specialText
  rw [h.method]
  simp only [specialForms, mem_cons, not_mem_nil, or_false] at hmethod
  split_ifs with hstring hconvert hcase hcount
  · exact h.toStringText hR
  · exact h.conversionText hR d
  · refine h.allTexts.bind fun as bs hargs => .ok ?_
    exact hR.branches hargs (hR.self (by decide))
  · exact h.countText hR
  · simp only [Bool.or_eq_true, beq_iff_eq] at hstring hconvert hcase hcount
    exact absurd hmethod (by tauto)

/-- So do calls of methods without a rule. -/
lemma unknownText (d : Dialect) : InStep (OnTexts R) (c.unknownText d) (c'.unknownText d) := by
  have hsource : InStep (OnTexts R) (c.operandTexts.headD (.ok Constant.null.sql))
      (c'.operandTexts.headD (.ok Constant.null.sql)) := by
    generalize c.operandTexts = xs, c'.operandTexts = ys, h.operandTexts = htexts
    cases htexts with
    | nil => exact .ok (hR.self (by decide))
    | cons hstep _ => exact hstep
  unfold CallTexts.unknownText
  rw [h.method, h.operands]
  split
  · refine hsource.bind fun a b hrelated => .ok ?_
    exact hR.cast hrelated (hR.suggestedType _ _)
  · exact .error _

/-- Calls keep step, if templates are filled without placeholders. -/
theorem text {d : Dialect} (hd : d.catalog.WritesForms)
    (hfree : d.fillsTemplate c.method → ∀ as bs, c.allTexts = .ok as →
      c'.allTexts = .ok bs → PlaceholderFreeTexts as ∧ PlaceholderFreeTexts bs) :
    InStep (OnTexts R) (c.text d) (c'.text d) := by
  unfold CallTexts.text
  rw [h.method, h.operands]
  cases hrule : d.catalog.get? c.method.name with
  | none => exact h.unknownText hR d
  | some rule =>
    have hform := hd _ _ hrule
    dsimp only
    split
    · cases hcheck : Function.checkArguments rule.function (c.operands.map Expr.type) with
      | error fault => exact .error fault
      | ok _ =>
        cases hspecial : rule.special with
        | true =>
          have hmethod : c.method.name ∈ specialForms := by
            simpa [FunctionRule.writesForm, hspecial] using hform
          exact h.specialText hR d hmethod
        | false =>
          have hargs := h.allTexts
          generalize hleft : c.allTexts = x, hright : c'.allTexts = y at hargs
          cases hargs with
          | error fault => exact .error fault
          | ok hargs =>
            refine hR.render hform hspecial hargs fun htemplate => ?_
            refine hfree ?_ _ _ hleft hright
            rw [Dialect.fillsTemplate, hrule]
            exact htemplate
    · exact .error _

end

end CallTexts.Matches

/-! ## Expressions -/

/-- Two ways of writing members that are in step on the leaves of an expression. -/
structure LeavesInStep (R : List Char → List Char → Prop) (write write' : MemberText)
    (nodes : List Expr) : Prop where
  param : ∀ p, Expr.param p ∈ nodes → OnTexts R p.name p.name
  string : ∀ value, Expr.const value ∈ nodes → ∀ s ∈ value.strings,
    OnTexts R (Constant.quoted s) (Constant.quoted s)
  member : ∀ m : Member, m.toExpr ∈ nodes → ∀ x y, InStep (OnTexts R) x y →
    InStep (OnTexts R) (write m x) (write' m y)

/-- Among the nodes of an expression are those of its parts. -/
lemma LeavesInStep.mono {nodes' : List Expr} (h : LeavesInStep R write write' nodes)
    (hsub : ∀ e ∈ nodes', e ∈ nodes) : LeavesInStep R write write' nodes' where
  param p hp := h.param p (hsub _ hp)
  string value hvalue := h.string value (hsub _ hvalue)
  member m hm := h.member m (hsub _ hm)

/-- The texts of a call with members written in a given way. -/
def CallTexts.scalars (d : Dialect) (write : MemberText) (method : Method) (receiver : Option Expr)
    (args : List Expr) : CallTexts :=
  ⟨method, receiver, args, Expr.scalar? d write receiver, Expr.scalars d write args⟩

/-- Two ways of writing members that are in step on the leaves of an expression with the given nodes
and fill no template with placeholders. -/
structure PartsInStep (R : List Char → List Char → Prop) (d : Dialect) (write write' : MemberText)
    (nodes : List Expr) : Prop extends LeavesInStep R write write' nodes where
  /-- Where a template is filled, the texts that it is filled with hold no placeholders. -/
  call : ∀ method receiver args, (∀ e ∈ (Expr.call method receiver args).nodes, e ∈ nodes) →
    d.fillsTemplate method = true →
    CallTexts.Matches R (.scalars d write method receiver args)
      (.scalars d write' method receiver args) →
    ∀ as bs, (CallTexts.scalars d write method receiver args).allTexts = .ok as →
      (CallTexts.scalars d write' method receiver args).allTexts = .ok bs →
      PlaceholderFreeTexts as ∧ PlaceholderFreeTexts bs

/-- Among the nodes of an expression are those of its parts. -/
lemma PartsInStep.mono {d : Dialect} {nodes' : List Expr} (h : PartsInStep R d write write' nodes)
    (hsub : ∀ e ∈ nodes', e ∈ nodes) : PartsInStep R d write write' nodes' where
  toLeavesInStep := h.toLeavesInStep.mono hsub
  call method receiver args hcall := h.call method receiver args fun e he => hsub e (hcall e he)

section

variable {d : Dialect} {e : Expr} {nodes' : List Expr}

lemma PartsInStep.tail (h : PartsInStep R d write write' (e :: nodes)) :
    PartsInStep R d write write' nodes :=
  h.mono fun _ he => mem_cons_of_mem _ he

lemma PartsInStep.left (h : PartsInStep R d write write' (nodes ++ nodes')) :
    PartsInStep R d write write' nodes :=
  h.mono fun _ he => mem_append_left _ he

lemma PartsInStep.right (h : PartsInStep R d write write' (nodes ++ nodes')) :
    PartsInStep R d write write' nodes' :=
  h.mono fun _ he => mem_append_right _ he

end

/-- Without placeholders, the leaves are all that matters. -/
lemma FormRelation.parts (hR : FormRelation R) {d : Dialect}
    (h : LeavesInStep R write write' nodes) :
    PartsInStep R d write write' nodes where
  toLeavesInStep := h
  call method receiver args _ _ hmatches as bs has hbs := by
    have hargs := hmatches.allTexts
    rw [has, hbs] at hargs
    cases hargs with
    | ok hargs => exact hR.placeholderFreeTexts hargs

namespace Expr

mutual

/-- Two ways of writing members that are in step on the parts of an expression are in step on the
expression. -/
theorem scalar_inStep {R : List Char → List Char → Prop} (hR : FillRelation R) {d : Dialect}
    (hd : d.catalog.WritesForms) {write write' : MemberText} (e : Expr)
    (h : PartsInStep R d write write' e.nodes) :
    InStep (OnTexts R) (e.scalar d write) (e.scalar d write') := by
  match e with
  | .param p => exact .ok (h.param p (mem_singleton_self _))
  | .member target name type isKey =>
    refine h.member ⟨target, name, type, isKey⟩ (mem_cons_self ..) _ _ ?_
    exact scalar_inStep hR hd target h.tail
  | .const value => exact .ok (hR.constant value (h.string value (mem_singleton_self _)))
  | .call method receiver args =>
    have hreceiver := scalar?_inStep hR hd receiver h.tail.left
    have hargs := scalars_inStep hR hd args h.tail.right
    have hmatches : CallTexts.Matches R (.scalars d write method receiver args)
        (.scalars d write' method receiver args) := ⟨rfl, rfl, rfl, hreceiver, hargs⟩
    exact hmatches.text hR hd fun htemplate =>
      h.call method receiver args (fun _ he => he) htemplate hmatches
  | .lambda _ body =>
    exact scalar_inStep hR hd body h.tail
  | .unary op operand _ =>
    have hoperand := scalar_inStep hR hd operand h.tail
    exact hoperand.bind fun a b hab => .ok (hR.unary op hab)
  | .binary op left right =>
    have hleft := scalar_inStep hR hd left h.tail.left
    have hright := scalar_inStep hR hd right h.tail.right
    exact hleft.bind fun a b hab => hright.bind fun a' b' hab' => .ok (hR.binary op hab hab')
  | .cond test ifTrue ifFalse =>
    have htest := scalar_inStep hR hd test h.tail.left
    have htrue := scalar_inStep hR hd ifTrue h.tail.right.left
    have hfalse := scalar_inStep hR hd ifFalse h.tail.right.right
    exact htest.bind fun t t' ht => htrue.bind fun a a' ha => hfalse.bind fun b b' hb =>
      .ok (hR.choice ht ha hb)
  | .record _ _ => exact .error _

/-- The same for a receiver. -/
theorem scalar?_inStep {R : List Char → List Char → Prop} (hR : FillRelation R) {d : Dialect}
    (hd : d.catalog.WritesForms) {write write' : MemberText} (e : Option Expr)
    (h : PartsInStep R d write write' (nodesOf? e)) :
    Option.Rel (InStep (OnTexts R)) (scalar? d write e) (scalar? d write' e) := by
  match e with
  | none => exact .none
  | some e => exact .some (scalar_inStep hR hd e h)

/-- The same for arguments. -/
theorem scalars_inStep {R : List Char → List Char → Prop} (hR : FillRelation R) {d : Dialect}
    (hd : d.catalog.WritesForms) {write write' : MemberText} (es : List Expr)
    (h : PartsInStep R d write write' (nodesOf es)) :
    List.Forall₂ (InStep (OnTexts R)) (scalars d write es) (scalars d write' es) := by
  match es with
  | [] => exact .nil
  | e :: rest =>
    exact .cons (scalar_inStep hR hd e h.left)
      (scalars_inStep hR hd rest h.right)

end

end Expr

end StreamQuery
