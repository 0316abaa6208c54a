import StreamQuery.Proofs.ClosedTexts
import StreamQuery.Proofs.HubColumns

/-!
# Templates

The placeholders of a template are written one after the other.  If no argument holds a placeholder,
that is the same as to fill all holes at once (`toList_fillFrom`): no placeholder can come about at
the end of an argument, since a hole is followed by a character that stands in none.

A template is sound if no hole stands inside a literal, the parentheses pair up, and every hole is
apart from the words around it.  The built-in rules write sound templates
(`Catalog.writesForms_builtin`).
-/

namespace StreamQuery

open List

/-! ## Texts with holes -/

/-- A character of a template, or the place of an argument. -/
inductive Piece where
  | char (c : Char)
  | hole (i : Fin 10)
deriving DecidableEq

/-- A text with holes. -/
abbrev Template := List Piece

namespace Template

/-- The text of a template with the given arguments in its holes. -/
def fill (args : List (List Char)) : Template → List Char
  | [] => []
  | .char c :: rest => c :: fill args rest
  | .hole i :: rest => args.getD i [] ++ fill args rest

/-- The text of a template with placeholders for its holes from number `k` on. -/
def fillUpTo (k : Nat) (args : List (List Char)) : Template → List Char
  | [] => []
  | .char c :: rest => c :: fillUpTo k args rest
  | .hole i :: rest =>
    (if i < k then args.getD i [] else (FunctionRule.placeholder i).toList) ++ fillUpTo k args rest

/-- Reads a template: a digit in braces is a hole. -/
def ofChars : List Char → Template
  | '\x7b' :: d :: '\x7d' :: rest => .hole (Fin.ofNat 10 (d.toNat - '0'.toNat)) :: ofChars rest
  | c :: rest => .char c :: ofChars rest
  | [] => []

/-- True when every hole has an argument. -/
def fits (count : Nat) (t : Template) : Bool :=
  t.all fun
    | .char _ => true
    | .hole i => i < count

/-- True when the template has no braces but those of its holes. -/
def isBraceFree (t : Template) : Bool :=
  t.all fun
    | .char c => c != '\x7b'
    | .hole _ => true

/-- True when literals end, parentheses pair up, and no hole stands inside a literal. -/
def closesFrom (r : Text.Reading) : Template → Bool
  | [] => r == .start
  | .char c :: rest => (r.step c).any fun next => closesFrom next rest
  | .hole _ :: rest => !r.quoted && closesFrom r rest

/-- The characters that a hole can follow. -/
def opensHole (c : Char) : Bool :=
  c == ' ' || c == '(' || c == '-'

/-- The characters that can follow a hole. -/
def endsHole (c : Char) : Bool :=
  c == ' ' || c == '(' || c == ')' || c == ','

/-- True when a template starts with a character that can follow a hole, or is at its end. -/
def startsApart : Template → Bool
  | [] => true
  | .char c :: _ => endsHole c
  | .hole _ :: _ => false

/-- True when holes are apart from what is around; `fresh` allows one in front. -/
def isSpaced (fresh : Bool) : Template → Bool
  | [] => true
  | .char c :: rest => isSpaced (opensHole c) rest
  | .hole _ :: rest => fresh && startsApart rest && isSpaced false rest

/-- A template that can be filled without harm. -/
structure IsSound (t : Template) : Prop where
  braceFree : t.isBraceFree = true
  /-- Literals and parentheses are closed, and no hole stands in a literal. -/
  closed : t.closesFrom .start = true
  spaced : t.isSpaced true = true

/-- It can be checked whether a template is sound. -/
instance (t : Template) : Decidable t.IsSound :=
  decidable_of_iff (t.isBraceFree = true ∧ t.closesFrom .start = true ∧ t.isSpaced true = true)
    ⟨fun h => ⟨h.1, h.2.1, h.2.2⟩, fun h => ⟨h.1, h.2, h.3⟩⟩

lemma fits_of_le {t : Template} {n m : Nat} (h : t.fits n) (hle : n ≤ m) : t.fits m := by
  rw [fits, all_eq_true] at h ⊢
  intro piece hpiece
  have hfits := h piece hpiece
  cases piece with
  | char c => rfl
  | hole i =>
    simp only [decide_eq_true_eq] at hfits ⊢
    omega

/-- True when a text is at its end, or goes on with a character that can follow a hole. -/
def stops (s : List Char) : Bool :=
  s.head?.all endsHole

lemma getD_of_forall {P : List Char → Prop} (hnil : P []) {args : List (List Char)}
    (hargs : ∀ arg ∈ args, P arg) (i : Nat) : P (args.getD i []) := by
  rw [getD_eq_getElem?_getD]
  cases harg : args[i]? with
  | none => exact hnil
  | some arg => exact hargs arg (mem_of_getElem? harg)

/-! ## Placeholders -/

section

open Text FunctionRule

/-- A text without placeholders. -/
def PlaceholderFree (s : List Char) : Prop :=
  ∀ i, ¬ (placeholder i).toList <:+: s

lemma toList_placeholder (i : Nat) :
    (placeholder i).toList = '\x7b' :: ((toString i).toList ++ ['\x7d']) := by
  simp [placeholder, String.toList_append]

lemma toList_placeholder_fin (i : Fin 10) :
    (placeholder i).toList = ['\x7b', Nat.digitChar i, '\x7d'] := by
  revert i
  decide

lemma mem_placeholder {i : Nat} {c : Char} (hc : c ∈ (placeholder i).toList) :
    c = '\x7b' ∨ c.isDigit ∨ c = '\x7d' := by
  rw [toList_placeholder, Nat.toString_eq_repr, Nat.toList_repr, mem_cons, mem_append,
    mem_singleton] at hc
  rcases hc with hc | hc | hc
  · exact .inl hc
  · exact .inr (.inl (Nat.isDigit_of_mem_toDigits (by decide) (by decide) hc))
  · exact .inr (.inr hc)

lemma endsHole_of_mem_placeholder {i : Nat} {c : Char} (hc : c ∈ (placeholder i).toList) :
    endsHole c = false := by
  by_contra hends
  simp only [Bool.not_eq_false, endsHole, Bool.or_eq_true, beq_iff_eq] at hends
  rcases hends with ((rfl | rfl) | rfl) | rfl
  all_goals exact absurd (mem_placeholder hc) (by decide)

namespace PlaceholderFree

variable {x rest : List Char}

lemma of_braceFree (h : '\x7b' ∉ x) : PlaceholderFree x := by
  intro i hinside
  rw [toList_placeholder] at hinside
  exact h (hinside.subset (mem_cons_self ..))

lemma not_isPrefix (h : PlaceholderFree x) (hrest : stops rest) {z : List Char}
    (hz : z <:+ x) (hne : z ≠ []) (i : Nat) : ¬ (placeholder i).toList <+: z ++ rest := by
  rintro ⟨more, hmore⟩
  rcases append_eq_append_iff.1 hmore with ⟨y, rfl, -⟩ | ⟨y, hy, rfl⟩
  · exact h i ((prefix_append _ y).isInfix.trans hz.isInfix)
  · cases y with
    | nil =>
      rw [append_nil] at hy
      rw [← hy] at hz
      exact h i hz.isInfix
    | cons c y =>
      -- the text would stop with a character of the placeholder
      have hmem : c ∈ (placeholder i).toList := by
        rw [hy]
        exact mem_append_right _ (mem_cons_self ..)
      rw [stops, cons_append, head?_cons, Option.all_some,
        endsHole_of_mem_placeholder hmem] at hrest
      cases hrest

end PlaceholderFree

lemma stops_fill {t : Template} (ht : t.startsApart) (args : List (List Char))
    {rest : List Char} (hrest : stops rest) : stops (t.fill args ++ rest) := by
  cases t with
  | nil => exact hrest
  | cons piece t =>
    cases piece with
    | char c => exact ht
    | hole i => cases ht

/-- Arguments without placeholders bring none into a template. -/
lemma placeholderFree_fill {args : List (List Char)} (hargs : ∀ arg ∈ args, PlaceholderFree arg)
    {t : Template} (ht : t.isBraceFree) {fresh : Bool} (hspaced : t.isSpaced fresh) :
    PlaceholderFree (t.fill args) := by
  have hnil : PlaceholderFree [] := .of_braceFree not_mem_nil
  induction t generalizing fresh with
  | nil => exact hnil
  | cons piece t ih =>
    rw [isBraceFree, all_cons, Bool.and_eq_true] at ht
    intro i hinside
    cases piece with
    | char c =>
      have hrest := ih ht.2 hspaced
      rcases infix_cons_iff.1 hinside with hlead | hinside
      · rw [toList_placeholder, cons_prefix_cons] at hlead
        exact (bne_iff_ne.1 ht.1) hlead.1.symm
      · exact hrest i hinside
    | hole j =>
      rw [isSpaced, Bool.and_eq_true, Bool.and_eq_true] at hspaced
      obtain ⟨⟨-, hapart⟩, hspaced⟩ := hspaced
      have hrest := ih ht.2 hspaced
      obtain ⟨before, after, hparts⟩ := hinside
      rw [fill, append_assoc] at hparts
      rcases append_eq_append_iff.1 hparts with ⟨y, hy, hafter⟩ | ⟨y, -, hafter⟩
      · by_cases hne : y = []
        · rw [hne, nil_append] at hafter
          exact hrest i ⟨[], after, by rw [nil_append, hafter]⟩
        · have hstops : stops (fill args t ++ []) := stops_fill hapart args rfl
          rw [append_nil] at hstops
          exact (getD_of_forall hnil hargs j).not_isPrefix hstops ⟨before, hy.symm⟩ hne i
            ⟨after, hafter⟩
      · exact hrest i ⟨y, after, by rw [append_assoc, hafter]⟩

/-! ## Filling the holes one after the other -/

variable {args : List (List Char)}

/-- A rule passes over a part that its text does not begin in. -/
lemma substituteFrom_passed {part written x rest : List Char}
    (h : ∀ z, z <:+ x → z ≠ [] → ¬ part <+: z ++ rest) (before : List Char) :
    substituteFrom (literalRule part written) 0 before (x ++ rest) =
      x ++ substituteFrom (literalRule part written) 0 (x.reverse ++ before) rest := by
  induction x generalizing before with
  | nil => rfl
  | cons c x ih =>
    have hnone : literalRule part written before (c :: (x ++ rest)) = none := by
      have hfirst := h (c :: x) (suffix_refl _) (cons_ne_nil c x)
      exact if_neg (mt isPrefixOf_iff_prefix.1 hfirst)
    have hrest := ih fun z hz => h z (hz.trans (suffix_cons c x))
    rw [cons_append, substituteFrom_kept hnone, hrest, reverse_cons, append_assoc]
    rfl

/-- A rule that replaces a placeholder passes over characters other than braces. -/
lemma substituteFrom_braceFree (k : Nat) (written : List Char) {x : List Char} (hx : '\x7b' ∉ x)
    (before rest : List Char) :
    substituteFrom (literalRule (placeholder k).toList written) 0 before (x ++ rest) =
      x ++ substituteFrom (literalRule (placeholder k).toList written) 0 (x.reverse ++ before)
        rest := by
  refine substituteFrom_passed (fun z hz hne hlead => ?_) before
  obtain ⟨c, z, rfl⟩ := exists_cons_of_ne_nil hne
  rw [toList_placeholder, cons_append, cons_prefix_cons] at hlead
  exact hx (hlead.1 ▸ hz.subset (mem_cons_self ..))

variable {t : Template}

/-- Writing an argument for its placeholder fills the holes of that number. -/
lemma substituteFrom_fillUpTo (ht : t.isBraceFree) {fresh : Bool} (hspaced : t.isSpaced fresh)
    (hargs : ∀ arg ∈ args, PlaceholderFree arg) (k : Nat) (before : List Char) :
    substituteFrom (literalRule (placeholder k).toList (args.getD k [])) 0 before
      (t.fillUpTo k args) = t.fillUpTo (k + 1) args := by
  induction t generalizing before fresh with
  | nil => simp [fillUpTo, substituteFrom, literalRule, toList_placeholder]
  | cons piece t ih =>
    rw [isBraceFree, all_cons, Bool.and_eq_true] at ht
    cases piece with
    | char c =>
      have hc : '\x7b' ∉ [c] := by simpa using Ne.symm (bne_iff_ne.1 ht.1)
      have hkept := substituteFrom_braceFree k (args.getD k []) hc before (fillUpTo k args t)
      rw [ih ht.2 hspaced] at hkept
      exact hkept
    | hole i =>
      rw [isSpaced, Bool.and_eq_true, Bool.and_eq_true] at hspaced
      obtain ⟨⟨-, hapart⟩, hspaced⟩ := hspaced
      unfold fillUpTo
      by_cases hfilled : (i : Nat) < k
      · have hstops : stops (fillUpTo k args t) := by
          cases t with
          | nil => rfl
          | cons next t =>
            cases next with
            | char c => exact hapart
            | hole j => cases hapart
        have harg := getD_of_forall (.of_braceFree not_mem_nil) hargs i
        rw [if_pos hfilled, if_pos (by omega),
          substituteFrom_passed (fun z hz hne => harg.not_isPrefix hstops hz hne k),
          ih ht.2 hspaced]
      · rw [if_neg hfilled]
        have hk : k < 10 := by omega
        by_cases hhere : (i : Nat) = k
        · have hrule : literalRule (placeholder k).toList (args.getD k []) before
              ((placeholder k).toList ++ fillUpTo k args t) =
                some ((placeholder k).toList.length, args.getD k []) := by
            simp [literalRule]
          rw [hhere, if_pos (by omega), substituteFrom_taken (by simp [toList_placeholder]) hrule,
            ih ht.2 hspaced]
        · -- another digit stands in the braces
          have hother : Nat.digitChar k ≠ Nat.digitChar i := by
            have hall : ∀ i k : Fin 10, (i : Nat) ≠ k → Nat.digitChar k ≠ Nat.digitChar i := by
              decide
            exact hall i ⟨k, hk⟩ hhere
          have hnone : literalRule (placeholder k).toList (args.getD k []) before
              ('\x7b' :: ([Nat.digitChar i, '\x7d'] ++ fillUpTo k args t)) = none := by
            simp [literalRule, toList_placeholder_fin ⟨k, hk⟩, hother]
          have hplain : '\x7b' ∉ [Nat.digitChar i, '\x7d'] := by
            have hall : ∀ i : Fin 10, '\x7b' ∉ [Nat.digitChar i, '\x7d'] := by decide
            exact hall i
          rw [if_neg (by omega), toList_placeholder_fin i, cons_append,
            substituteFrom_kept hnone, substituteFrom_braceFree _ _ hplain, ih ht.2 hspaced]
          rfl

lemma fillUpTo_zero (t : Template) : t.fillUpTo 0 args = t.fillUpTo 0 [] := by
  induction t with
  | nil => rfl
  | cons piece t ih =>
    cases piece with
    | char c => exact congrArg (c :: ·) ih
    | hole i => exact congrArg ((placeholder i).toList ++ ·) ih

lemma fillUpTo_of_fits {k : Nat} (h : t.fits k) : t.fillUpTo k args = t.fill args := by
  induction t with
  | nil => rfl
  | cons piece t ih =>
    rw [fits, all_cons, Bool.and_eq_true] at h
    cases piece with
    | char c => exact congrArg (c :: ·) (ih h.2)
    | hole i =>
      have hi : (i : Nat) < k := by simpa using h.1
      rw [fillUpTo, if_pos hi, ih h.2]
      rfl

/-- Writing one argument after the other fills one hole after the other. -/
lemma fillFrom_fillUpTo (ht : t.IsSound) (done rest : List String)
    (hargs : ∀ arg ∈ done ++ rest, PlaceholderFree arg.toList) :
    fillFrom done.length
        (String.ofList (t.fillUpTo done.length ((done ++ rest).map String.toList))) rest =
      String.ofList (t.fillUpTo (done ++ rest).length ((done ++ rest).map String.toList)) := by
  induction rest generalizing done with
  | nil => rw [fillFrom, append_nil]
  | cons arg rest ih =>
    have hsplit : done ++ arg :: rest = (done ++ [arg]) ++ rest := by simp
    have harg : ((done ++ arg :: rest).map String.toList).getD done.length [] = arg.toList := by
      simp [getD_eq_getElem?_getD]
    have hplain : ∀ chars ∈ (done ++ arg :: rest).map String.toList, PlaceholderFree chars := by
      intro chars hchars
      obtain ⟨other, hother, rfl⟩ := mem_map.1 hchars
      exact hargs other hother
    have hstep := substituteFrom_fillUpTo ht.braceFree ht.spaced hplain done.length []
    rw [harg] at hstep
    rw [hsplit] at hargs
    have hrest := ih _ hargs
    rw [fillFrom, replaceAll, String.toList_ofList, substitute, hstep, hsplit]
    rw [length_append, length_singleton] at hrest
    exact hrest

/-- Arguments without placeholders fill a sound template at once. -/
theorem toList_fillFrom {template : String} (htext : t.fillUpTo 0 [] = template.toList)
    (ht : t.IsSound) {args : List String} (hfits : t.fits args.length)
    (hargs : ∀ arg ∈ args, PlaceholderFree arg.toList) :
    (fillFrom 0 template args).toList = t.fill (args.map String.toList) := by
  have hfill := fillFrom_fillUpTo ht [] args hargs
  rw [length_nil, nil_append, fillUpTo_zero, htext, String.ofList_toList,
    fillUpTo_of_fits hfits] at hfill
  rw [hfill, String.toList_ofList]

end

/-- The characters that are neither quotation marks nor parentheses nor braces. -/
def isPlain (c : Char) : Bool :=
  c != '\'' && c != '(' && c != ')' && c != '\x7b'

end Template

/-! ## Catalogs -/

/-- The methods with a form of their own. -/
def specialForms : List String :=
  ["ToString", "Parse", "Convert", "Case", "Count"]

/-- A rule writes a sound form: a special form, a sound template with an argument for each hole, or
a call of a function with a plain name. -/
def FunctionRule.writesForm (method : String) (r : FunctionRule) : Bool :=
  if r.special then specialForms.contains method
  else match r.template with
  | some text =>
    let t := Template.ofChars text.toList
    t.fillUpTo 0 [] == text.toList && decide t.IsSound && t.fits r.minArgs
  | none => r.function.toList.all Template.isPlain

/-- A catalog all of whose rules write sound forms. -/
def Catalog.WritesForms (c : Catalog) : Prop :=
  ∀ method rule, c.get? method = some rule → rule.writesForm method = true

/-- What holds of the built-in rules holds of the rules in the built-in catalog. -/
lemma Catalog.forall_builtin {P : String → FunctionRule → Prop}
    (h : ∀ entry ∈ FunctionRule.builtinRules, P entry.1 entry.2) {method : String}
    {rule : FunctionRule} (hrule : builtin.get? method = some rule) : P method rule := by
  unfold get? builtin at hrule
  rw [NameMap.get?_ofList] at hrule
  obtain ⟨entry, hentry, rfl⟩ := Option.map_eq_some_iff.1 hrule
  have hname : entry.1 = method := by simpa using find?_some hentry
  rw [← hname]
  exact h entry (mem_reverse.1 (mem_of_find?_eq_some hentry))

/-- The built-in rules write sound forms. -/
theorem Catalog.writesForms_builtin : builtin.WritesForms := by
  have hall : ∀ entry ∈ FunctionRule.builtinRules, entry.2.writesForm entry.1 :=
    all_eq_true.1 (by decide +kernel)
  intro method rule
  exact forall_builtin (P := fun method rule => rule.writesForm method) hall

end StreamQuery
