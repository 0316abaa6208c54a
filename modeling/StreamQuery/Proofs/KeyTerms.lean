import Mathlib.Logic.Function.Iterate
import StreamQuery.Proofs.JoinSql
import StreamQuery.Proofs.Lexemes

/-!
# Arithmetic terms

A grouping key is made of columns and literals by arithmetic and COALESCE, without brackets.
`KeySql` is such a term, and `KeySql.read` reads a text with the usual precedence: a sign binds
tighter than `*`, `/` and `%`, these bind tighter than `+` and `-`, and operators of one rank are
grouped from left to right.  Two minus signs in a row begin a comment.

`KeySql.read_text` says what is read from the text of a term that has no need of brackets: the same
term, with signs moved to the first factor of a product (`KeySql.norm`).  Any other term is read as
a different one, because a text without brackets is always read as a term that needs none
(`KeySql.isShaped_of_run`).
-/

namespace StreamQuery

open List

/-! ## Terms -/

/-- The operators of arithmetic. -/
inductive Arith where
  | add
  | subtract
  | multiply
  | divide
  | modulo
deriving DecidableEq, Inhabited

/-- The sign of an operator. -/
def Arith.sign : Arith → Char
  | .add => '+'
  | .subtract => '-'
  | .multiply => '*'
  | .divide => '/'
  | .modulo => '%'

/-- True for the operators that bind tighter. -/
def Arith.isProduct : Arith → Bool
  | .add | .subtract => false
  | .multiply | .divide | .modulo => true

/-- True for a literal without a minus sign. -/
def Literal.isUnsigned : Literal → Bool
  | .number n => StreamQuery.isUnsigned n.1.toList
  | _ => true

/-- A term of columns and literals; a negative number is a negation. -/
inductive KeySql where
  | column (name : String)
  | literal (value : { v : Literal // v.isUnsigned = true })
  | negate (operand : KeySql)
  | binary (op : Arith) (left right : KeySql)
  /-- The first term unless it is null. -/
  | coalesce (left right : KeySql)
deriving DecidableEq, Inhabited

namespace KeySql

/-- The text of a term. -/
def text : KeySql → String
  | .column name => name
  | .literal value => value.1.sql
  | .negate x => "-" ++ x.text
  | .binary op l r => l.text ++ " " ++ String.singleton op.sign ++ " " ++ r.text
  | .coalesce l r => "COALESCE(" ++ l.text ++ ", " ++ r.text ++ ")"

/-- True for a sum or difference, which may be negated. -/
def isSum : KeySql → Bool
  | .negate x => x.isSum
  | .binary op _ _ => !op.isProduct
  | _ => false

/-- True for a term that is no operation, which may be negated. -/
def isFactor : KeySql → Bool
  | .negate x => x.isFactor
  | .binary _ _ _ => false
  | _ => true

/-- True when the text of the term begins with a minus sign. -/
def startsSigned : KeySql → Bool
  | .negate _ => true
  | .binary _ l _ => l.startsSigned
  | _ => false

/-- True when no operand needs brackets: no sum is negated or multiplied, and no right operand has
the rank of its operation. -/
def isGrouped : KeySql → Bool
  | .negate x => x.isGrouped && !x.isSum
  | .binary op l r =>
    l.isGrouped && r.isGrouped && if op.isProduct then !l.isSum && r.isFactor else !r.isSum
  | .coalesce l r => l.isGrouped && r.isGrouped
  | _ => true

/-- True when no two minus signs stand next to each other. -/
def isSpaced : KeySql → Bool
  | .negate x => x.isSpaced && !x.startsSigned
  | .binary _ l r => l.isSpaced && r.isSpaced
  | .coalesce l r => l.isSpaced && r.isSpaced
  | _ => true

/-- A term with a sign, which is moved to the first factor of a product. -/
def signed : KeySql → KeySql
  | .binary op l r => if op.isProduct then .binary op l.signed r else .negate (.binary op l r)
  | x => .negate x

/-- A term with all signs moved to first factors. -/
def norm : KeySql → KeySql
  | .negate x => x.norm.signed
  | .binary op l r => .binary op l.norm r.norm
  | .coalesce l r => .coalesce l.norm r.norm
  | x => x

/-- True for a term that a text without brackets can be read as. -/
def isShaped : KeySql → Bool
  | .negate x => x.isShaped && x.isFactor
  | .binary op l r =>
    l.isShaped && r.isShaped && if op.isProduct then !l.isSum && r.isFactor else !r.isSum
  | .coalesce l r => l.isShaped && r.isShaped
  | _ => true

/-! ### Signs -/

section

attribute [local simp] signed isSum isFactor isShaped

/-- A sum is no factor. -/
lemma isFactor_of_isSum {x : KeySql} (h : x.isSum) : x.isFactor = false := by
  induction x with
  | negate x ih => exact ih h
  | binary op l r => rfl
  | _ => cases h

lemma isSum_of_isFactor {x : KeySql} (h : x.isFactor) : x.isSum = false := by
  rw [Bool.eq_false_iff]
  intro hsum
  rw [isFactor_of_isSum hsum] at h
  cases h

variable (x : KeySql)

@[simp] lemma isSum_signed : x.signed.isSum = x.isSum := by
  cases x with
  | binary op l r => cases h : op.isProduct <;> simp [h]
  | _ => rfl

@[simp] lemma isFactor_signed : x.signed.isFactor = x.isFactor := by
  cases x with
  | binary op l r => cases h : op.isProduct <;> simp [h]
  | _ => rfl

/-- A factor is negated as a whole. -/
lemma signed_of_isFactor {x : KeySql} (h : x.isFactor) : x.signed = .negate x := by
  cases x with
  | binary op l r => cases h
  | _ => rfl

lemma iterate_signed_of_isFactor {x : KeySql} (h : x.isFactor) (k : Nat) :
    signed^[k] x = negate^[k] x := by
  induction k generalizing x with
  | zero => rfl
  | succ k ih =>
    have hfactor : x.signed.isFactor := by rwa [isFactor_signed]
    rw [Function.iterate_succ_apply, Function.iterate_succ_apply, ih hfactor, signed_of_isFactor h]

/-- Signs of a product go to its first factor. -/
lemma iterate_signed_product {op : Arith} (hop : op.isProduct) (l r : KeySql) (k : Nat) :
    signed^[k] (.binary op l r) = .binary op (signed^[k] l) r := by
  induction k generalizing l with
  | zero => rfl
  | succ k ih =>
    rw [Function.iterate_succ_apply, Function.iterate_succ_apply, signed, if_pos hop, ih]

@[simp] lemma isSum_norm : x.norm.isSum = x.isSum := by
  induction x with
  | negate x ih => rw [norm, isSum_signed, ih, isSum]
  | _ => rfl

@[simp] lemma isFactor_norm : x.norm.isFactor = x.isFactor := by
  induction x with
  | negate x ih => rw [norm, isFactor_signed, ih, isFactor]
  | _ => rfl

/-- A term in shape keeps it behind a sign exactly if it is no sum. -/
lemma isShaped_signed : x.signed.isShaped = (x.isShaped && !x.isSum) := by
  induction x with
  | column name => rfl
  | literal value => rfl
  | coalesce l r => simp
  | negate x ih =>
    cases hfactor : x.isFactor with
    | false => simp [hfactor]
    | true => simp [hfactor, isSum_of_isFactor hfactor]
  | binary op l r ihl _ =>
    cases hop : op.isProduct with
    | false => simp [hop]
    | true =>
      simp only [signed, hop, if_true, isShaped, isSum, ihl, isSum_signed]
      cases l.isSum <;> simp

/-- With its signs moved, a term is in shape exactly if it needs no brackets. -/
lemma isShaped_norm : x.norm.isShaped = x.isGrouped := by
  induction x with
  | column name => rfl
  | literal value => rfl
  | negate x ih => rw [norm, isShaped_signed, ih, isSum_norm, isGrouped]
  | binary op l r ihl ihr =>
    rw [norm, isShaped, ihl, ihr, isSum_norm, isSum_norm, isFactor_norm, isGrouped]
  | coalesce l r ihl ihr => rw [norm, isShaped, ihl, ihr, isGrouped]

/-- A term in shape has its signs where they are read. -/
lemma norm_of_isShaped {x : KeySql} (h : x.isShaped) : x.norm = x := by
  induction x with
  | column name => rfl
  | literal value => rfl
  | negate x ih =>
    rw [isShaped, Bool.and_eq_true] at h
    rw [norm, ih h.1, signed_of_isFactor h.2]
  | binary op l r ihl ihr =>
    rw [isShaped, Bool.and_eq_true, Bool.and_eq_true] at h
    rw [norm, ihl h.1.1, ihr h.1.2]
  | coalesce l r ihl ihr =>
    rw [isShaped, Bool.and_eq_true] at h
    rw [norm, ihl h.1, ihr h.2]

end

/-! ## Reading -/

/-- A token of a term. -/
inductive Token where
  | operand (x : KeySql)
  /-- The sign of an operator, or a minus sign. -/
  | sign (op : Arith)
  | coalesce
  | opening
  | closing
  | comma
deriving DecidableEq, Inhabited

/-- The words that name no column, in lower case. -/
def reserved : List String :=
  ["coalesce", "null", "true", "false"]

/-- True for a word that starts with no digit and is not reserved. -/
def isName (s : String) : Bool :=
  s.toList.all Lexeme.isWordChar && s.toList.head?.any (fun c => !c.isDigit) &&
    !reserved.contains (Text.lower s)

/-- The literal of a number without a sign. -/
def number (w : List Char) (h : isUnsigned w = true) : KeySql :=
  .literal
    ⟨.number ⟨String.ofList w, by rw [String.toList_ofList]; exact isNumeral_of_isUnsigned h⟩,
      by rw [Literal.isUnsigned, String.toList_ofList]; exact h⟩

/-- The token of a word. -/
def wordToken? (w : List Char) : Option Token :=
  let name := Text.lower (String.ofList w)
  if h : isUnsigned w = true then some (.operand (number w h))
  else if name = "coalesce" then some .coalesce
  else if name = "null" then some (.operand (.literal ⟨.null, rfl⟩))
  else if name = "true" then some (.operand (.literal ⟨.bool true, rfl⟩))
  else if name = "false" then some (.operand (.literal ⟨.bool false, rfl⟩))
  else if isName (String.ofList w) then some (.operand (.column (String.ofList w)))
  else none

/-- The token of a mark. -/
def markToken? (c : Char) : Option Token :=
  if c = '(' then some .opening
  else if c = ')' then some .closing
  else if c = ',' then some .comma
  else if c = '+' then some (.sign .add)
  else if c = '-' then some (.sign .subtract)
  else if c = '*' then some (.sign .multiply)
  else if c = '/' then some (.sign .divide)
  else if c = '%' then some (.sign .modulo)
  else none

/-- The tokens of a text: blanks are none. -/
def tokens? : List Lexeme → Option (List Token)
  | [] => some []
  | .blank :: rest => tokens? rest
  | .word w :: rest => (wordToken? w).bind fun t => (tokens? rest).map (t :: ·)
  | .mark c :: rest => (markToken? c).bind fun t => (tokens? rest).map (t :: ·)
  | .text s :: rest =>
    (tokens? rest).map (.operand (.literal ⟨.string (String.ofList s), rfl⟩) :: ·)

/-- True when two minus signs stand next to each other, or one behind a sign. -/
def opensComment (signed : Bool) : List Lexeme → Bool
  | [] => false
  | t :: rest =>
    if t = .mark '-' then signed || opensComment true rest else opensComment false rest

/-- A left operand with its operator, if there is one, and a right operand. -/
def combine (left : Option (KeySql × Arith)) (right : KeySql) : KeySql :=
  match left with
  | some (l, op) => .binary op l right
  | none => right

/-- What is open between a bracket and the end of what has been read. -/
structure Frame where
  /-- The left operand of a sum whose right operand is missing. -/
  sum : Option (KeySql × Arith) := none
  /-- The left operand of a product whose right operand is missing. -/
  product : Option (KeySql × Arith) := none
  /-- How many minus signs stand in front of the missing operand. -/
  signs : Nat := 0

namespace Frame

/-- The frame behind a product. -/
def rest (f : Frame) : Frame := { sum := f.sum }

/-- The product that ends with an operand. -/
def attach (f : Frame) (x : KeySql) : KeySql :=
  combine f.product (negate^[f.signs] x)

/-- The sum that ends with a product. -/
def total (f : Frame) (x : KeySql) : KeySql :=
  combine f.sum x

/-- The frame behind a product and an operator. -/
def operate (f : Frame) (op : Arith) (x : KeySql) : Frame :=
  if op.isProduct then { sum := f.sum, product := some (x, op) }
  else { sum := some (f.total x, op) }

end Frame

/-- What an opening bracket opens. -/
inductive Opening where
  | group
  /-- The first argument of COALESCE. -/
  | first
  /-- The second argument of COALESCE, with the first one. -/
  | second (left : KeySql)

/-- What has been read last. -/
inductive Slot where
  | missing
  /-- The name of a function. -/
  | calling
  | holding (x : KeySql)

/-- The state of the reader. -/
structure Reader where
  /-- The frames outside of the open brackets. -/
  stack : List (Frame × Opening) := []
  frame : Frame := {}
  slot : Slot := .missing

namespace Reader

/-- An operand that has been read. -/
def hold (stack : List (Frame × Opening)) (frame : Frame) (x : KeySql) : Reader :=
  ⟨stack, frame.rest, .holding (frame.attach x)⟩

/-- One token. -/
def step : Reader → Token → Option Reader
  | ⟨stack, frame, .missing⟩, .operand x => some (hold stack frame x)
  | ⟨stack, frame, .missing⟩, .sign .subtract =>
    some ⟨stack, { frame with signs := frame.signs + 1 }, .missing⟩
  | ⟨stack, frame, .missing⟩, .opening => some ⟨(frame, .group) :: stack, {}, .missing⟩
  | ⟨stack, frame, .missing⟩, .coalesce => some ⟨stack, frame, .calling⟩
  | ⟨stack, frame, .calling⟩, .opening => some ⟨(frame, .first) :: stack, {}, .missing⟩
  | ⟨stack, frame, .holding x⟩, .sign op => some ⟨stack, frame.operate op x, .missing⟩
  | ⟨(outer, .first) :: stack, frame, .holding x⟩, .comma =>
    some ⟨(outer, .second (frame.total x)) :: stack, {}, .missing⟩
  | ⟨(outer, .second l) :: stack, frame, .holding x⟩, .closing =>
    some (hold stack outer (.coalesce l (frame.total x)))
  | ⟨(outer, .group) :: stack, frame, .holding x⟩, .closing =>
    some (hold stack outer (frame.total x))
  | _, _ => none

/-- The term read, if no bracket is open and no operand is missing. -/
def finish : Reader → Option KeySql
  | ⟨[], frame, .holding x⟩ => some (frame.total x)
  | _ => none

/-- Reads tokens one after the other. -/
def run (s : Reader) : List Token → Option KeySql
  | [] => s.finish
  | t :: rest => (s.step t).bind fun s => run s rest

end Reader

/-- Reads a text. -/
def read (text : String) : Option KeySql :=
  if opensComment false (lexemes text) then none
  else (tokens? (lexemes text)).bind (Reader.run {})

/-! ## The tokens of a term -/

/-- The tokens of a term. -/
def tokens : KeySql → List Token
  | .negate x => .sign .subtract :: x.tokens
  | .binary op l r => l.tokens ++ .sign op :: r.tokens
  | .coalesce l r =>
    .coalesce :: .opening :: (l.tokens ++ .comma :: (r.tokens ++ [.closing]))
  | x => [.operand x]

variable (t : KeySql) {x : KeySql}

lemma Frame.attach_signed (f : Frame) (h : x.isFactor) :
    { f with signs := f.signs + 1 }.attach x = f.attach x.signed := by
  rw [attach, attach, Function.iterate_succ_apply, signed_of_isFactor h]

/-- Without a product in front, a factor takes the signs of the frame. -/
lemma Frame.attach_of_isFactor {f : Frame} (hf : f.product = none) (h : x.isFactor) :
    f.attach x = signed^[f.signs] x := by
  rw [attach, hf, iterate_signed_of_isFactor h]
  rfl

/-- The tokens of a term are read as the operand that is missing. -/
def ReadsFactor (t : KeySql) : Prop :=
  ∀ stack frame rest, Reader.run ⟨stack, frame, .missing⟩ (t.tokens ++ rest) =
    Reader.run (.hold stack frame t.norm) rest

/-- The tokens of a term are read as a product, where its first factor is missing. -/
def ReadsProduct (t : KeySql) : Prop :=
  ∀ stack (frame : Frame) rest, frame.product = none →
    Reader.run ⟨stack, frame, .missing⟩ (t.tokens ++ rest) =
      Reader.run ⟨stack, frame.rest, .holding (signed^[frame.signs] t.norm)⟩ rest

/-- The tokens of a term are read as a sum, where nothing is open. -/
def ReadsSum (t : KeySql) : Prop :=
  ∃ frame x, Frame.total frame x = t.norm ∧ ∀ stack rest,
    Reader.run ⟨stack, {}, .missing⟩ (t.tokens ++ rest) =
      Reader.run ⟨stack, frame, .holding x⟩ rest

/-- What the reader makes of the tokens of a term, by its rank. -/
structure IsRead (t : KeySql) : Prop where
  factor : t.isFactor = true → t.ReadsFactor
  product : t.isSum = false → t.ReadsProduct
  sum : t.ReadsSum

namespace IsRead

variable {t : KeySql}

/-- What is read as a product is read as a sum. -/
lemma readsSum (h : t.ReadsProduct) : t.ReadsSum :=
  ⟨{}, t.norm, rfl, fun stack rest => h stack {} rest rfl⟩

/-- A factor is read as a term. -/
lemma of_factor (hfactor : t.isFactor) (h : t.ReadsFactor) : IsRead t := by
  have hnorm : t.norm.isFactor := by rwa [isFactor_norm]
  have hproduct : t.ReadsProduct := by
    intro stack frame rest hframe
    rw [h, Reader.hold, Frame.attach_of_isFactor hframe hnorm]
  exact ⟨fun _ => h, fun _ => hproduct, readsSum hproduct⟩

/-- A term other than a sum is read behind a sign. -/
lemma negate {x : KeySql} (hx : IsRead x) (hsum : x.isSum = false) : IsRead (.negate x) := by
  have hstep : ∀ stack frame rest,
      Reader.run ⟨stack, frame, .missing⟩ ((KeySql.negate x).tokens ++ rest) =
        Reader.run ⟨stack, { frame with signs := frame.signs + 1 }, .missing⟩
          (x.tokens ++ rest) := fun _ _ _ => rfl
  have hproduct : (KeySql.negate x).ReadsProduct := by
    intro stack frame rest hframe
    rw [hstep, hx.product hsum stack { frame with signs := frame.signs + 1 } rest hframe,
      Function.iterate_succ_apply]
    rfl
  refine ⟨fun hfactor stack frame rest => ?_, fun _ => hproduct, readsSum hproduct⟩
  rw [hstep, hx.factor hfactor, Reader.hold, Frame.attach_signed _ (by rwa [isFactor_norm])]
  rfl

lemma tokens_binary (op : Arith) (l r : KeySql) (rest : List Token) :
    (KeySql.binary op l r).tokens ++ rest = l.tokens ++ .sign op :: (r.tokens ++ rest) := by
  simp [tokens]

lemma tokens_coalesce (l r : KeySql) (rest : List Token) : (KeySql.coalesce l r).tokens ++ rest =
    .coalesce :: .opening :: (l.tokens ++ .comma :: (r.tokens ++ .closing :: rest)) := by
  simp [tokens]

/-- An operator behind a product. -/
lemma run_sign (stack : List (Frame × Opening)) (frame : Frame) (x : KeySql) (op : Arith)
    (rest : List Token) :
    Reader.run ⟨stack, frame, .holding x⟩ (.sign op :: rest) =
      Reader.run ⟨stack, frame.operate op x, .missing⟩ rest := by
  simp [Reader.run, Reader.step]

/-- A product is read if its first operand is no sum and its second a factor. -/
lemma product_binary {op : Arith} (hop : op.isProduct) {l r : KeySql} (hl : IsRead l)
    (hr : IsRead r) (hsum : l.isSum = false) (hfactor : r.isFactor) : IsRead (.binary op l r) := by
  have hproduct : (KeySql.binary op l r).ReadsProduct := by
    intro stack frame rest hframe
    rw [tokens_binary, hl.product hsum _ _ _ hframe, run_sign, hr.factor hfactor, norm,
      iterate_signed_product hop]
    simp [Reader.hold, Frame.operate, hop, Frame.rest, Frame.attach, combine]
  exact ⟨fun h => absurd h Bool.false_ne_true, fun _ => hproduct, readsSum hproduct⟩

/-- A sum is read if its right operand is no sum. -/
lemma sum_binary {op : Arith} (hop : op.isProduct = false) {l r : KeySql} (hl : IsRead l)
    (hr : IsRead r) (hsum : r.isSum = false) : IsRead (.binary op l r) := by
  obtain ⟨frame, x, htotal, hrun⟩ := hl.sum
  refine ⟨fun h => absurd h Bool.false_ne_true, fun h => ?_, ⟨{ sum := some (l.norm, op) }, r.norm,
    rfl, fun stack rest => ?_⟩⟩
  · rw [isSum, hop] at h
    cases h
  · rw [tokens_binary, hrun, run_sign, Frame.operate, hop, if_neg Bool.false_ne_true, htotal,
      hr.product hsum _ _ _ rfl]
    rfl

/-- A coalescence of terms that are read is read. -/
lemma coalesce {l r : KeySql} (hl : IsRead l) (hr : IsRead r) : IsRead (.coalesce l r) := by
  obtain ⟨frame, x, hfirst, hl⟩ := hl.sum
  obtain ⟨frame', y, hsecond, hr⟩ := hr.sum
  refine of_factor rfl fun stack outer rest => ?_
  rw [tokens_coalesce]
  simp only [Reader.run, Reader.step, Option.bind_some, hl, hr, hfirst, hsecond]
  rfl

end IsRead

/-- A term that needs no brackets is read. -/
lemma isRead (h : t.isGrouped) : IsRead t := by
  induction t with
  | column name => exact .of_factor rfl fun _ _ _ => rfl
  | literal value => exact .of_factor rfl fun _ _ _ => rfl
  | negate x ih =>
    rw [isGrouped, Bool.and_eq_true, Bool.not_eq_true'] at h
    exact .negate (ih h.1) h.2
  | binary op l r ihl ihr =>
    rw [isGrouped, Bool.and_eq_true, Bool.and_eq_true] at h
    obtain ⟨⟨hl, hr⟩, hranks⟩ := h
    cases hop : op.isProduct with
    | true =>
      rw [hop, if_pos rfl, Bool.and_eq_true, Bool.not_eq_true'] at hranks
      exact .product_binary hop (ihl hl) (ihr hr) hranks.1 hranks.2
    | false =>
      rw [hop, if_neg Bool.false_ne_true, Bool.not_eq_true'] at hranks
      exact .sum_binary hop (ihl hl) (ihr hr) hranks
  | coalesce l r ihl ihr =>
    rw [isGrouped, Bool.and_eq_true] at h
    exact .coalesce (ihl h.1) (ihr h.2)

/-- Its tokens are read as the term with its signs moved to first factors. -/
lemma run_tokens {t : KeySql} (h : t.isGrouped) : Reader.run {} t.tokens = some t.norm := by
  obtain ⟨frame, x, htotal, hrun⟩ := (isRead t h).sum
  have hend := hrun [] []
  rw [append_nil] at hend
  rw [hend, ← htotal]
  rfl

/-! ## What a text without brackets is read as -/

/-- Signs keep the shape of a factor. -/
lemma isShaped_iterate_negate (h : x.isShaped) (hfactor : x.isFactor) (k : Nat) :
    (negate^[k] x).isShaped ∧ (negate^[k] x).isFactor := by
  induction k with
  | zero => exact ⟨h, hfactor⟩
  | succ k ih =>
    rw [Function.iterate_succ_apply']
    exact ⟨by rw [isShaped, ih.1, ih.2]; rfl, ih.2⟩

/-- A frame whose operands have the shape of read terms. -/
structure Frame.IsShaped (f : Frame) : Prop where
  sum : ∀ l op, f.sum = some (l, op) → l.isShaped = true ∧ op.isProduct = false
  product : ∀ l op, f.product = some (l, op) →
    l.isShaped = true ∧ l.isSum = false ∧ op.isProduct = true

namespace Frame.IsShaped

variable {f : Frame} {x : KeySql}

lemma empty : Frame.IsShaped {} :=
  ⟨fun _ _ h => absurd h.symm (Option.some_ne_none _),
    fun _ _ h => absurd h.symm (Option.some_ne_none _)⟩

lemma rest (hf : f.IsShaped) : f.rest.IsShaped :=
  ⟨hf.sum, empty.product⟩

/-- A factor completes a product in shape. -/
lemma attach (hf : f.IsShaped) (hx : x.isShaped) (hfactor : x.isFactor) :
    (f.attach x).isShaped ∧ (f.attach x).isSum = false := by
  obtain ⟨hshaped, hfactor⟩ := isShaped_iterate_negate hx hfactor f.signs
  unfold Frame.attach
  cases hproduct : f.product with
  | none => exact ⟨hshaped, isSum_of_isFactor hfactor⟩
  | some p =>
    obtain ⟨l, op⟩ := p
    obtain ⟨hl, hsum, hop⟩ := hf.product l op hproduct
    simp [combine, isShaped, isSum, hl, hsum, hop, hshaped, hfactor]

/-- A product completes a term in shape. -/
lemma total (hf : f.IsShaped) (hx : x.isShaped) (hsum : x.isSum = false) :
    (f.total x).isShaped := by
  unfold Frame.total
  cases hleft : f.sum with
  | none => exact hx
  | some p =>
    obtain ⟨l, op⟩ := p
    obtain ⟨hl, hop⟩ := hf.sum l op hleft
    simp [combine, isShaped, hl, hop, hx, hsum]

/-- An operator keeps a frame in shape. -/
lemma operate (hf : f.IsShaped) (op : Arith) (hx : x.isShaped) (hsum : x.isSum = false) :
    (f.operate op x).IsShaped := by
  unfold Frame.operate
  cases hop : op.isProduct with
  | true =>
    refine ⟨hf.sum, fun l op' h => ?_⟩
    cases h
    exact ⟨hx, hsum, hop⟩
  | false =>
    refine ⟨fun l op' h => ?_, empty.product⟩
    cases h
    exact ⟨hf.total hx hsum, hop⟩

end Frame.IsShaped

/-- An argument of COALESCE that has the shape of a read term. -/
def Opening.IsShaped : Opening → Prop
  | .group => False
  | .first => True
  | .second l => l.isShaped = true

/-- A reader that has met no bracket but those of COALESCE. -/
structure Reader.IsShaped (s : Reader) : Prop where
  stack : ∀ entry ∈ s.stack, entry.1.IsShaped ∧ entry.2.IsShaped
  frame : s.frame.IsShaped
  slot : ∀ x, s.slot = .holding x → x.isShaped = true ∧ x.isSum = false

/-- True when the name of a function has been read. -/
def Slot.isCalling : Slot → Bool
  | .calling => true
  | _ => false

/-- True for tokens without brackets but those of COALESCE, which may stand in front. -/
def isBracketFree (called : Bool) : List Token → Bool
  | [] => true
  | .opening :: rest => called && isBracketFree false rest
  | .coalesce :: rest => isBracketFree true rest
  | .operand x :: rest => x.isShaped && x.isFactor && isBracketFree false rest
  | _ :: rest => isBracketFree false rest

namespace Reader

/-- An operand keeps the shape. -/
lemma IsShaped.hold {stack : List (Frame × Opening)} {frame : Frame} {x : KeySql}
    (hstack : ∀ entry ∈ stack, entry.1.IsShaped ∧ entry.2.IsShaped) (hframe : frame.IsShaped)
    (hx : x.isShaped) (hfactor : x.isFactor) : (hold stack frame x).IsShaped := by
  refine ⟨hstack, hframe.rest, fun y hy => ?_⟩
  cases hy
  exact hframe.attach hx hfactor

/-- One token keeps the shape. -/
lemma IsShaped.step {s s' : Reader} (hs : s.IsShaped) {t : Token} {rest : List Token}
    (ht : isBracketFree s.slot.isCalling (t :: rest)) (h : s.step t = some s') :
    s'.IsShaped ∧ isBracketFree s'.slot.isCalling rest := by
  obtain ⟨hstack, hframe, hslot⟩ := hs
  have hempty : ∀ x, Slot.missing = .holding x → x.isShaped ∧ x.isSum = false := by
    intro x hx
    cases hx
  unfold Reader.step at h
  split at h
  · -- an operand
    cases h
    simp only [isBracketFree, Bool.and_eq_true] at ht
    exact ⟨.hold hstack hframe ht.1.1 ht.1.2, ht.2⟩
  · -- a minus sign
    cases h
    exact ⟨⟨hstack, ⟨hframe.sum, hframe.product⟩, hempty⟩, ht⟩
  · -- a bracket that is none of COALESCE
    cases ht
  · -- the name of the function
    cases h
    refine ⟨⟨hstack, hframe, fun x hx => ?_⟩, ht⟩
    cases hx
  · -- the bracket of the function
    cases h
    refine ⟨⟨forall_mem_cons.2 ⟨⟨hframe, trivial⟩, hstack⟩, .empty, hempty⟩, ?_⟩
    exact (Bool.and_eq_true_iff.1 ht).2
  · -- an operator
    cases h
    obtain ⟨hx, hsum⟩ := hslot _ rfl
    exact ⟨⟨hstack, hframe.operate _ hx hsum, hempty⟩, ht⟩
  · -- the first argument of the function
    cases h
    obtain ⟨hx, hsum⟩ := hslot _ rfl
    obtain ⟨⟨houter, -⟩, hstack⟩ := forall_mem_cons.1 hstack
    exact ⟨⟨forall_mem_cons.2 ⟨⟨houter, hframe.total hx hsum⟩, hstack⟩, .empty, hempty⟩, ht⟩
  · -- the second argument of the function
    cases h
    obtain ⟨hx, hsum⟩ := hslot _ rfl
    obtain ⟨⟨houter, hleft⟩, hstack⟩ := forall_mem_cons.1 hstack
    refine ⟨.hold hstack houter ?_ rfl, ht⟩
    rw [isShaped, hleft, hframe.total hx hsum]
    rfl
  · -- no other bracket is open
    obtain ⟨⟨-, hgroup⟩, -⟩ := forall_mem_cons.1 hstack
    exact hgroup.elim
  · cases h

/-- Tokens with no brackets but COALESCE's are read as a term that needs none. -/
lemma isShaped_of_run {s : Reader} (hs : s.IsShaped) {ts : List Token}
    (hts : isBracketFree s.slot.isCalling ts) {t : KeySql} (h : s.run ts = some t) :
    t.isShaped := by
  induction ts generalizing s with
  | nil =>
    unfold run finish at h
    split at h
    · cases h
      obtain ⟨hx, hsum⟩ := hs.slot _ rfl
      exact hs.frame.total hx hsum
    · cases h
  | cons token ts ih =>
    obtain ⟨s', hstep, hrun⟩ := Option.bind_eq_some_iff.1 h
    obtain ⟨hs', hts'⟩ := hs.step hts hstep
    exact ih hs' hts' hrun

end Reader

/-- A term has no brackets but those of COALESCE. -/
lemma isBracketFree_tokens (rest : List Token) :
    isBracketFree false (t.tokens ++ rest) = isBracketFree false rest := by
  induction t generalizing rest with
  | column name => rfl
  | literal value => rfl
  | negate x ih => exact ih rest
  | binary op l r ihl ihr =>
    rw [tokens, append_assoc, ihl]
    exact ihr rest
  | coalesce l r ihl ihr =>
    have hcomma : isBracketFree false (.comma :: (r.tokens ++ .closing :: rest)) =
        isBracketFree false (r.tokens ++ .closing :: rest) := rfl
    have hclosing : isBracketFree false (.closing :: rest) = isBracketFree false rest := rfl
    have hopening : isBracketFree false (.coalesce :: .opening :: (l.tokens ++ .comma ::
          (r.tokens ++ .closing :: rest))) =
        isBracketFree false (l.tokens ++ .comma :: (r.tokens ++ .closing :: rest)) := rfl
    rw [IsRead.tokens_coalesce, hopening, ihl, hcomma, ihr, hclosing]

/-- Whatever the tokens of a term are read as needs no brackets. -/
lemma isShaped_of_run {t sql : KeySql} (h : Reader.run {} t.tokens = some sql) : sql.isShaped := by
  have hstart : Reader.IsShaped {} := by
    refine ⟨fun _ h => absurd h not_mem_nil, .empty, fun x hx => ?_⟩
    cases hx
  have htokens := isBracketFree_tokens t []
  rw [append_nil] at htokens
  exact Reader.isShaped_of_run hstart htokens h

/-! ## The lexemes of a term -/

/-- The lexeme of a literal without a sign. -/
def literalLexeme : Literal → Lexeme
  | .null => .word "NULL".toList
  | .bool true => .word "true".toList
  | .bool false => .word "false".toList
  | .number n => .word n.1.toList
  | .string s => .text s.toList

/-- The lexemes of a term. -/
def lexemes : KeySql → List Lexeme
  | .column name => [.word name.toList]
  | .literal value => [literalLexeme value.1]
  | .negate x => .mark '-' :: x.lexemes
  | .binary op l r => l.lexemes ++ .blank :: .mark op.sign :: .blank :: r.lexemes
  | .coalesce l r => .word "COALESCE".toList :: .mark '(' ::
      (l.lexemes ++ .mark ',' :: .blank :: (r.lexemes ++ [.mark ')']))

/-- True when all columns have names. -/
def hasNames : KeySql → Bool
  | .column name => isName name
  | .literal _ => true
  | .negate x => x.hasNames
  | .binary _ l r => l.hasNames && r.hasNames
  | .coalesce l r => l.hasNames && r.hasNames

/-- An unsigned literal is one lexeme. -/
lemma lexes_literal {value : Literal} (hvalue : value.isUnsigned) :
    Lexes value.sql.toList [literalLexeme value] := by
  cases value with
  | null => decide
  | bool value => cases value <;> decide
  | number n =>
    refine .word (ne_nil_of_isUnsigned hvalue) fun c hc => ?_
    rcases isDigit_or_point_of_isUnsigned hvalue hc with hdigit | rfl
    · exact Lexer.isWordChar_of_isDigit hdigit
    · decide
  | string s => exact .quoted s

/-- A name is one lexeme. -/
lemma lexes_name {name : String} (h : isName name) : Lexes name.toList [.word name.toList] := by
  simp only [isName, Bool.and_eq_true] at h
  refine .word ?_ (all_eq_true.1 h.1.1)
  intro hnil
  rw [hnil] at h
  cases h.1.2

/-- The text of a term is cut into its lexemes. -/
lemma lexes_text (h : t.hasNames) : Lexes t.text.toList t.lexemes := by
  induction t with
  | column name => exact lexes_name h
  | literal value => exact lexes_literal value.2
  | negate x ih =>
    have hsign : Lexes "-".toList [.mark '-'] := by decide
    rw [text, String.toList_append]
    exact hsign.append_of_between (by decide) (ih h)
  | binary op l r ihl ihr =>
    rw [hasNames, Bool.and_eq_true] at h
    have hsign : Lexes [' ', op.sign, ' '] [.blank, .mark op.sign, .blank] := by
      cases op <;> decide
    have hend : Lexer.between.after [' ', op.sign, ' '] = .between := by
      cases op <;> decide
    have htext : (KeySql.binary op l r).text.toList =
        l.text.toList ++ ([' ', op.sign, ' '] ++ r.text.toList) := by
      simp [text]
    rw [htext, lexemes]
    exact (ihl h.1).append (hsign.append_of_between hend (ihr h.2)) rfl
  | coalesce l r ihl ihr =>
    rw [hasNames, Bool.and_eq_true] at h
    have hopen : Lexes "COALESCE(".toList [.word "COALESCE".toList, .mark '('] := by decide
    have hcomma : Lexes ", ".toList [.mark ',', .blank] := by decide
    have hclose : Lexes ")".toList [.mark ')'] := by decide
    have htext : (KeySql.coalesce l r).text.toList = "COALESCE(".toList ++
        (l.text.toList ++ (", ".toList ++ (r.text.toList ++ ")".toList))) := by
      simp [text]
    rw [htext, lexemes]
    have hr := (ihr h.2).append hclose rfl
    have hl := (ihl h.1).append (hcomma.append_of_between (by decide) hr) rfl
    exact hopen.append_of_between (by decide) hl

lemma markToken?_sign (op : Arith) : markToken? op.sign = some (.sign op) := by
  cases op <;> rfl

/-- A name is the token of its column. -/
lemma wordToken?_name {name : String} (h : isName name) :
    wordToken? name.toList = some (.operand (.column name)) := by
  have hname := h
  simp only [isName, Bool.and_eq_true, Bool.not_eq_true'] at h
  obtain ⟨⟨-, hhead⟩, hreserved⟩ := h
  have hunsigned : isUnsigned name.toList = false := by
    cases hcs : name.toList with
    | nil => rfl
    | cons c cs =>
      rw [hcs] at hhead
      have hdigit : c.isDigit = false := by simpa using hhead
      simp [isUnsigned, hdigit]
  have hne : ∀ word ∈ reserved, Text.lower name ≠ word := by
    rintro word hword rfl
    rw [contains_eq_mem, decide_eq_false_iff_not] at hreserved
    exact hreserved hword
  have hcoalesce := hne "coalesce" (by decide)
  have hnull := hne "null" (by decide)
  have htrue := hne "true" (by decide)
  have hfalse := hne "false" (by decide)
  simp [wordToken?, hcoalesce, hnull, htrue, hfalse, hunsigned, hname]

lemma tokens?_word {w : List Char} {t : Token} (h : wordToken? w = some t) (rest : List Lexeme) :
    tokens? (.word w :: rest) = (tokens? rest).map (t :: ·) := by
  rw [tokens?, h, Option.bind_some]

lemma tokens?_mark {c : Char} {t : Token} (h : markToken? c = some t) (rest : List Lexeme) :
    tokens? (.mark c :: rest) = (tokens? rest).map (t :: ·) := by
  rw [tokens?, h, Option.bind_some]

/-- A literal without a sign is read as itself. -/
lemma tokens?_literal {value : Literal} (hvalue : value.isUnsigned) (rest : List Lexeme) :
    tokens? (literalLexeme value :: rest) =
      (tokens? rest).map (.operand (.literal ⟨value, hvalue⟩) :: ·) := by
  cases value with
  | null =>
    have hword : wordToken? "NULL".toList = some (.operand (.literal ⟨.null, rfl⟩)) := by decide
    exact tokens?_word hword rest
  | bool value =>
    cases value with
    | false =>
      have hword : wordToken? "false".toList = some (.operand (.literal ⟨.bool false, rfl⟩)) := by
        decide
      exact tokens?_word hword rest
    | true =>
      have hword : wordToken? "true".toList = some (.operand (.literal ⟨.bool true, rfl⟩)) := by
        decide
      exact tokens?_word hword rest
  | number n =>
    have hword : wordToken? n.1.toList = some (.operand (number n.1.toList hvalue)) :=
      dif_pos hvalue
    rw [literalLexeme, tokens?_word hword rest]
    simp only [number, String.ofList_toList]
  | string s => simp only [literalLexeme, tokens?, String.ofList_toList]

lemma lexemes_binary (op : Arith) (l r : KeySql) (rest : List Lexeme) :
    (KeySql.binary op l r).lexemes ++ rest =
      l.lexemes ++ .blank :: .mark op.sign :: .blank :: (r.lexemes ++ rest) := by
  simp [lexemes]

lemma lexemes_coalesce (l r : KeySql) (rest : List Lexeme) :
    (KeySql.coalesce l r).lexemes ++ rest = .word "COALESCE".toList :: .mark '(' ::
      (l.lexemes ++ .mark ',' :: .blank :: (r.lexemes ++ .mark ')' :: rest)) := by
  simp [lexemes]

/-- The lexemes of a term are its tokens. -/
lemma tokens?_lexemes (h : t.hasNames) (rest : List Lexeme) :
    tokens? (t.lexemes ++ rest) = (tokens? rest).map (t.tokens ++ ·) := by
  have hblank : ∀ rest, tokens? (.blank :: rest) = tokens? rest := fun _ => rfl
  induction t generalizing rest with
  | column name => exact tokens?_word (wordToken?_name h) rest
  | literal value => exact tokens?_literal value.2 rest
  | negate x ih =>
    have hsign : markToken? '-' = some (.sign .subtract) := rfl
    rw [lexemes, cons_append, tokens?_mark hsign, ih h]
    simp [tokens, Function.comp_def]
  | binary op l r ihl ihr =>
    rw [hasNames, Bool.and_eq_true] at h
    rw [lexemes_binary, ihl h.1, hblank, tokens?_mark (markToken?_sign op), hblank, ihr h.2]
    simp [tokens, Function.comp_def]
  | coalesce l r ihl ihr =>
    rw [hasNames, Bool.and_eq_true] at h
    have hword : wordToken? "COALESCE".toList = some .coalesce := by decide
    have hopen : markToken? '(' = some .opening := rfl
    have hcomma : markToken? ',' = some .comma := rfl
    have hclose : markToken? ')' = some .closing := rfl
    rw [lexemes_coalesce, tokens?_word hword, tokens?_mark hopen, ihl h.1, tokens?_mark hcomma,
      hblank, ihr h.2, tokens?_mark hclose]
    simp [tokens, Function.comp_def]

/-- Two minus signs stand next to each other in a term, or where it begins. -/
lemma opensComment_lexemes (signed : Bool) (rest : List Lexeme) :
    opensComment signed (t.lexemes ++ rest) =
      (signed && t.startsSigned || !t.isSpaced || opensComment false rest) := by
  have hother : ∀ signed t rest, t ≠ Lexeme.mark '-' →
      opensComment signed (t :: rest) = opensComment false rest := by
    intro signed t rest ht
    rw [opensComment, if_neg ht]
  induction t generalizing signed rest with
  | column name => simp [lexemes, opensComment, startsSigned, isSpaced]
  | literal value =>
    have hvalue : ∀ v, literalLexeme v ≠ .mark '-' := by
      intro v hv
      rcases v with _ | _ | _ | _
      case bool b => cases b <;> cases hv
      all_goals cases hv
    simp [lexemes, hother _ _ _ (hvalue value.1), startsSigned, isSpaced]
  | negate x ih =>
    rw [lexemes, cons_append, opensComment, if_pos rfl, ih, startsSigned, isSpaced]
    cases signed <;> cases x.startsSigned <;> cases x.isSpaced <;> rfl
  | binary op l r ihl ihr =>
    have hsign : opensComment false (.blank :: .mark op.sign :: .blank :: (r.lexemes ++ rest)) =
        opensComment false (r.lexemes ++ rest) := by
      cases op <;> rfl
    rw [lexemes_binary, ihl, hsign, ihr, startsSigned, isSpaced]
    cases l.isSpaced <;> simp [Bool.or_assoc]
  | coalesce l r ihl ihr =>
    rw [lexemes_coalesce, hother _ _ _ (by decide), hother _ _ _ (by decide), ihl,
      hother _ _ _ (by decide), hother _ _ _ (by decide), ihr, hother _ _ _ (by decide), isSpaced]
    cases l.isSpaced <;> simp [startsSigned]

/-- The text of a term is read as its tokens are, unless it begins a comment. -/
theorem read_text (h : t.hasNames) :
    read t.text = if t.isSpaced then Reader.run {} t.tokens else none := by
  have hlexemes : StreamQuery.lexemes t.text = t.lexemes := (lexes_text t h).read
  have htokens : tokens? t.lexemes = some t.tokens := by
    have hall := tokens?_lexemes t h []
    rw [append_nil] at hall
    rw [hall]
    simp [tokens?]
  have hcomment : opensComment false t.lexemes = !t.isSpaced := by
    have hall := opensComment_lexemes t false []
    rw [append_nil] at hall
    rw [hall]
    simp [opensComment]
  rw [read, hlexemes, htokens, hcomment]
  cases t.isSpaced <;> rfl

end KeySql

end StreamQuery
