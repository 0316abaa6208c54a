import StreamQuery.Proofs.Templates

/-!
# Templates filled at once

The placeholders of a template are filled one after the other, each in the text that the ones before
it have left. `filledAtOnce` is the text that is meant.

No two placeholders of a text overlap, so filling goes on independently on both sides of one
(`fillHoles_append`). Filling number `k` when the numbers below have been filled also replaces a
placeholder that the earlier arguments have brought in. It is right exactly if they bring in none,
or if argument `k` is its own placeholder (`fillHoles_step_iff`). Lengths decide that, since every
replacement changes the length of the text by the same amount.
-/

namespace StreamQuery

open List

variable {c : Char} {rest s : List Char} {i k : Nat}

/-- The number of places at which a part stands in a text. -/
def Text.occurrences (part : List Char) : List Char → Nat
  | [] => 0
  | c :: rest => (if part.isPrefixOf (c :: rest) then 1 else 0) + occurrences part rest

namespace FunctionRule

open Text Template

/-- The rule that writes a text for each placeholder of the given numbers. -/
def holeRule (holes : List Nat) (written : Nat → List Char) : Rule := fun _ rest =>
  (holes.find? fun i => (placeholder i).toList.isPrefixOf rest).map fun i =>
    ((placeholder i).toList.length, written i)

/-- A text with its placeholders of the given numbers replaced. -/
def fillHoles (holes : List Nat) (written : Nat → List Char) (s : List Char) : List Char :=
  substitute (holeRule holes written) s

/-- A template with every placeholder that has an argument replaced by it. -/
def filledAtOnce (template : String) (args : List String) : String :=
  String.ofList (fillHoles (range args.length) (fun i => (args.getD i "").toList)
    template.toList)

/-- Each argument that is not its own placeholder finds exactly the placeholders of the template. -/
def FillsTemplateOnly (template : String) (args : List String) : Prop :=
  ∀ k (hk : k < args.length), args[k] = placeholder k ∨
    occurrences (placeholder k).toList (filledAtOnce template (args.take k)).toList =
      occurrences (placeholder k).toList template.toList

/-! ## Placeholders do not overlap -/

lemma toList_placeholder_digits (i : Nat) :
    (placeholder i).toList = '\x7b' :: (Nat.toDigits 10 i ++ ['\x7d']) := by
  rw [toList_placeholder, Nat.toString_eq_repr, Nat.toList_repr]

lemma ne_of_mem_digits (hc : c ∈ Nat.toDigits 10 i) : c ≠ '\x7b' ∧ c ≠ '\x7d' := by
  have hdigit := Nat.isDigit_of_mem_toDigits (by decide) (by decide) hc
  constructor
  · rintro rfl
    exact absurd hdigit (by decide)
  · rintro rfl
    exact absurd hdigit (by decide)

lemma not_mem_tail_placeholder (i : Nat) : '\x7b' ∉ (placeholder i).toList.tail := by
  intro hmem
  rw [toList_placeholder_digits, tail_cons, mem_append, mem_singleton] at hmem
  rcases hmem with hmem | hmem
  · exact (ne_of_mem_digits hmem).1 rfl
  · exact absurd hmem (by decide)

lemma placeholder_ne_nil (i : Nat) : (placeholder i).toList ≠ [] := by
  rw [toList_placeholder]
  exact cons_ne_nil _ _

lemma placeholder_eq_cons (i : Nat) :
    (placeholder i).toList = '\x7b' :: (placeholder i).toList.tail := by
  rw [toList_placeholder, tail_cons]

/-- No placeholder begins with another one. -/
lemma eq_of_starts {j : Nat} (h : (placeholder i).toList <+: (placeholder j).toList ++ rest) :
    i = j := by
  -- the digits end at the first closing brace
  have hspan : ∀ (n : Nat) (more : List Char),
      (Nat.toDigits 10 n ++ '\x7d' :: more).takeWhile (· != '\x7d') = Nat.toDigits 10 n := by
    intro n more
    have hdigits : ∀ c ∈ Nat.toDigits 10 n, (c != '\x7d') := by
      intro c hc
      rw [bne_iff_ne]
      exact (ne_of_mem_digits hc).2
    rw [takeWhile_append_of_pos hdigits, takeWhile_cons_of_neg (by decide), append_nil]
  obtain ⟨more, hmore⟩ := h
  rw [toList_placeholder_digits, toList_placeholder_digits] at hmore
  simp only [cons_append, append_assoc, nil_append, cons.injEq, true_and]
    at hmore
  have hdigits := congrArg (takeWhile (· != '\x7d')) hmore
  rw [hspan, hspan] at hdigits
  rw [← Nat.ofDigitChars_ten_toDigits (n := i), hdigits, Nat.ofDigitChars_ten_toDigits]

lemma starts_before_brace {z : List Char} (hz : z ≠ [])
    (h : (placeholder i).toList <+: z ++ '\x7b' :: rest) : (placeholder i).toList <+: z := by
  obtain ⟨more, hmore⟩ := h
  rcases append_eq_append_iff.1 hmore with ⟨y, rfl, -⟩ | ⟨y, hy, hrest⟩
  · exact prefix_append _ y
  · obtain ⟨c, z, rfl⟩ := exists_cons_of_ne_nil hz
    cases y with
    | nil => exact ⟨[], by rw [hy, append_nil, append_nil]⟩
    | cons d y =>
      have hd : d = '\x7b' := (cons.inj hrest).1.symm
      have hmem : '\x7b' ∈ (placeholder i).toList.tail := by
        rw [hy, hd, cons_append, tail_cons]
        exact mem_append_right _ (mem_cons_self ..)
      exact absurd hmem (not_mem_tail_placeholder i)

/-! ## Filling holes -/

section

variable {holes : List Nat} {written : Nat → List Char}

@[simp] lemma fillHoles_nil : fillHoles holes written [] = [] := by
  have hnone : holeRule holes written [] [] = none := by
    rw [holeRule, Option.map_eq_none_iff, find?_eq_none]
    intro i _ hstarts
    exact placeholder_ne_nil i (prefix_nil.1 (List.isPrefixOf_iff_prefix.1 hstarts))
  rw [fillHoles, substitute, substituteFrom, hnone]

lemma substituteFrom_holeRule (before rest : List Char) :
    substituteFrom (holeRule holes written) 0 before rest = fillHoles holes written rest :=
  substituteFrom_before_eq (fun _ _ _ => rfl) 0 before [] rest

/-- A placeholder is replaced. -/
lemma fillHoles_hole (hi : i ∈ holes) (rest : List Char) :
    fillHoles holes written ((placeholder i).toList ++ rest) =
      written i ++ fillHoles holes written rest := by
  have hfind : holes.find? (fun j => (placeholder j).toList.isPrefixOf
      ((placeholder i).toList ++ rest)) = some i := by
    have hsome : ∃ j, holes.find? (fun j => (placeholder j).toList.isPrefixOf
        ((placeholder i).toList ++ rest)) = some j := by
      rw [← Option.isSome_iff_exists, find?_isSome]
      exact ⟨i, hi, isPrefixOf_iff_prefix.2 (prefix_append _ _)⟩
    obtain ⟨j, hj⟩ := hsome
    have hstarts : (placeholder j).toList.isPrefixOf ((placeholder i).toList ++ rest) := by
      simpa only using find?_some hj
    rw [hj, eq_of_starts (List.isPrefixOf_iff_prefix.1 hstarts)]
  have hrule : holeRule holes written [] ((placeholder i).toList ++ rest) =
      some ((placeholder i).toList.length, written i) := by
    rw [holeRule, hfind, Option.map_some]
  rw [fillHoles, substitute, substituteFrom_taken (placeholder_ne_nil i) hrule,
    substituteFrom_holeRule]

/-- A character that no placeholder begins with stays. -/
lemma fillHoles_kept (h : ∀ i ∈ holes, ¬ (placeholder i).toList <+: c :: rest) :
    fillHoles holes written (c :: rest) = c :: fillHoles holes written rest := by
  have hrule : holeRule holes written [] (c :: rest) = none := by
    rw [holeRule, Option.map_eq_none_iff, find?_eq_none]
    intro i hi hstarts
    exact h i hi (List.isPrefixOf_iff_prefix.1 hstarts)
  rw [fillHoles, substitute, substituteFrom_kept hrule, substituteFrom_holeRule]

/-- Texts are read from left to right, a placeholder or a character at a time. -/
@[elab_as_elim]
lemma hole_induction (holes : List Nat) {motive : List Char → Prop} (nil : motive [])
    (hole : ∀ i ∈ holes, ∀ rest, motive rest → motive ((placeholder i).toList ++ rest))
    (kept : ∀ c rest, (∀ i ∈ holes, ¬ (placeholder i).toList <+: c :: rest) → motive rest →
      motive (c :: rest)) (s : List Char) : motive s := by
  induction hn : s.length using Nat.strong_induction_on generalizing s with
  | _ n ih =>
    by_cases hfound : ∃ i ∈ holes, (placeholder i).toList <+: s
    · obtain ⟨i, hi, rest, rfl⟩ := hfound
      have hpos := length_pos_iff.2 (placeholder_ne_nil i)
      rw [length_append] at hn
      exact hole i hi rest (ih _ (by omega) rest rfl)
    · cases s with
      | nil => exact nil
      | cons c rest =>
        rw [length_cons] at hn
        refine kept c rest (fun i hi hstarts => hfound ⟨i, hi, hstarts⟩) (ih _ ?_ rest rfl)
        omega

/-- A text is filled independently around a brace that may begin a placeholder. -/
lemma fillHoles_append (x rest : List Char) :
    fillHoles holes written (x ++ '\x7b' :: rest) =
      fillHoles holes written x ++ fillHoles holes written ('\x7b' :: rest) := by
  induction x using hole_induction holes with
  | nil => rw [nil_append, fillHoles_nil, nil_append]
  | hole i hi x ih => rw [append_assoc, fillHoles_hole hi, fillHoles_hole hi, ih,
      append_assoc]
  | kept c x hnone ih =>
    have hstill : ∀ i ∈ holes, ¬ (placeholder i).toList <+: c :: (x ++ '\x7b' :: rest) := by
      intro i hi hstarts
      exact hnone i hi (starts_before_brace (cons_ne_nil c x) hstarts)
    rw [cons_append, fillHoles_kept hstill, fillHoles_kept hnone, ih, cons_append]

/-- A text is filled independently before a placeholder and from it on. -/
lemma fillHoles_append_placeholder (x : List Char) (i : Nat) (rest : List Char) :
    fillHoles holes written (x ++ ((placeholder i).toList ++ rest)) =
      fillHoles holes written x ++ fillHoles holes written ((placeholder i).toList ++ rest) := by
  rw [placeholder_eq_cons, cons_append, fillHoles_append]

/-- A placeholder is kept by a filling of others. -/
lemma fillHoles_other (hk : k ∉ holes) (rest : List Char) :
    fillHoles holes written ((placeholder k).toList ++ rest) =
      (placeholder k).toList ++ fillHoles holes written rest := by
  have hplain : ∀ x : List Char, '\x7b' ∉ x →
      fillHoles holes written (x ++ rest) = x ++ fillHoles holes written rest := by
    intro x hx
    induction x with
    | nil => rfl
    | cons c x ih =>
      rw [mem_cons, not_or] at hx
      have hnone : ∀ i ∈ holes, ¬ (placeholder i).toList <+: c :: (x ++ rest) := by
        intro i _ hstarts
        rw [placeholder_eq_cons, cons_prefix_cons] at hstarts
        exact hx.1 hstarts.1
      rw [cons_append, fillHoles_kept hnone, ih hx.2, cons_append]
  have hnone : ∀ i ∈ holes,
      ¬ (placeholder i).toList <+: '\x7b' :: ((placeholder k).toList.tail ++ rest) := by
    intro i hi hstarts
    rw [← cons_append, ← placeholder_eq_cons] at hstarts
    exact hk (eq_of_starts hstarts ▸ hi)
  rw [placeholder_eq_cons, cons_append, fillHoles_kept hnone,
    hplain _ (not_mem_tail_placeholder k), cons_append]

lemma fillHoles_congr {other : Nat → List Char} (h : ∀ i ∈ holes, written i = other i)
    (s : List Char) : fillHoles holes written s = fillHoles holes other s := by
  induction s using hole_induction holes with
  | nil => rw [fillHoles_nil, fillHoles_nil]
  | hole i hi rest ih => rw [fillHoles_hole hi, fillHoles_hole hi, h i hi, ih]
  | kept c rest hnone ih => rw [fillHoles_kept hnone, fillHoles_kept hnone, ih]

/-- Without anything to change, filling keeps a text. -/
lemma fillHoles_eq_self
    (h : ∀ i ∈ holes, written i = (placeholder i).toList ∨ ¬ (placeholder i).toList <:+: s) :
    fillHoles holes written s = s := by
  induction s using hole_induction holes with
  | nil => exact fillHoles_nil
  | hole i hi rest ih =>
    have hown : written i = (placeholder i).toList :=
      (h i hi).resolve_right (not_not_intro (prefix_append _ rest).isInfix)
    have hrest := ih fun j hj => (h j hj).imp_right fun hnone hinside =>
      hnone (hinside.trans (suffix_append _ rest).isInfix)
    rw [fillHoles_hole hi, hown, hrest]
  | kept c rest hnone ih =>
    have hrest := ih fun j hj => (h j hj).imp_right fun hnone hinside =>
      hnone (infix_cons hinside)
    rw [fillHoles_kept hnone, hrest]

end

/-! ## Counting placeholders -/

/-- The number of placeholders with a number in a text. -/
abbrev holesOf (k : Nat) (s : List Char) : Nat :=
  occurrences (placeholder k).toList s

lemma holesOf_kept (h : ¬ (placeholder k).toList <+: c :: rest) :
    holesOf k (c :: rest) = holesOf k rest := by
  rw [holesOf, occurrences, if_neg (mt isPrefixOf_iff_prefix.1 h), Nat.zero_add]

lemma holesOf_braceFree (k : Nat) {x : List Char} (hx : '\x7b' ∉ x) (rest : List Char) :
    holesOf k (x ++ rest) = holesOf k rest := by
  induction x with
  | nil => rfl
  | cons c x ih =>
    rw [mem_cons, not_or] at hx
    have hnone : ¬ (placeholder k).toList <+: c :: (x ++ rest) := by
      rw [placeholder_eq_cons, cons_prefix_cons]
      exact fun hstarts => hx.1 hstarts.1
    rw [cons_append, holesOf_kept hnone, ih hx.2]

lemma holesOf_hole (k : Nat) (rest : List Char) :
    holesOf k ((placeholder k).toList ++ rest) = holesOf k rest + 1 := by
  have hfirst : (placeholder k).toList.isPrefixOf
      ('\x7b' :: ((placeholder k).toList.tail ++ rest)) := by
    rw [List.isPrefixOf_iff_prefix, ← cons_append, ← placeholder_eq_cons]
    exact prefix_append _ _
  have hcount : holesOf k ('\x7b' :: ((placeholder k).toList.tail ++ rest)) =
      1 + holesOf k ((placeholder k).toList.tail ++ rest) := by
    rw [holesOf, occurrences, if_pos hfirst]
  conv_lhs => rw [placeholder_eq_cons, cons_append]
  rw [hcount, holesOf_braceFree k (not_mem_tail_placeholder k), Nat.add_comm]

lemma holesOf_other (hik : k ≠ i) (rest : List Char) :
    holesOf k ((placeholder i).toList ++ rest) = holesOf k rest := by
  have hnone : ¬ (placeholder k).toList <+: '\x7b' :: ((placeholder i).toList.tail ++ rest) := by
    rw [← cons_append, ← placeholder_eq_cons]
    exact fun hstarts => hik (eq_of_starts hstarts)
  conv_lhs => rw [placeholder_eq_cons, cons_append, holesOf_kept hnone]
  rw [holesOf_braceFree k (not_mem_tail_placeholder i)]

lemma holesOf_append (k : Nat) (x rest : List Char) :
    holesOf k (x ++ '\x7b' :: rest) = holesOf k x + holesOf k ('\x7b' :: rest) := by
  induction x with
  | nil => exact (Nat.zero_add _).symm
  | cons c x ih =>
    have hsame : (placeholder k).toList.isPrefixOf (c :: (x ++ '\x7b' :: rest)) =
        (placeholder k).toList.isPrefixOf (c :: x) := by
      rw [Bool.eq_iff_iff, isPrefixOf_iff_prefix, isPrefixOf_iff_prefix]
      constructor
      · exact starts_before_brace (cons_ne_nil c x)
      · intro hstarts
        exact hstarts.trans (prefix_append (c :: x) _)
    have hleft : holesOf k (c :: x ++ '\x7b' :: rest) =
        (if (placeholder k).toList.isPrefixOf (c :: x) then 1 else 0) +
          holesOf k (x ++ '\x7b' :: rest) := by
      rw [cons_append, holesOf, occurrences, hsame]
    have hright : holesOf k (c :: x) =
        (if (placeholder k).toList.isPrefixOf (c :: x) then 1 else 0) + holesOf k x := rfl
    omega

/-- Placeholders are counted independently before one of them and from it on. -/
lemma holesOf_append_placeholder (k : Nat) (x : List Char) (i : Nat) (rest : List Char) :
    holesOf k (x ++ ((placeholder i).toList ++ rest)) =
      holesOf k x + holesOf k ((placeholder i).toList ++ rest) := by
  rw [placeholder_eq_cons, cons_append, holesOf_append]

/-- A text has no holes exactly if the placeholder is not in it. -/
lemma holesOf_eq_zero_iff : holesOf k s = 0 ↔ ¬ (placeholder k).toList <:+: s := by
  induction s with
  | nil =>
    rw [infix_nil]
    exact iff_of_true rfl (placeholder_ne_nil k)
  | cons c rest ih =>
    rw [infix_cons_iff, not_or, ← ih]
    by_cases hstarts : (placeholder k).toList <+: c :: rest
    · rw [holesOf, occurrences, if_pos (List.isPrefixOf_iff_prefix.2 hstarts)]
      constructor
      · intro hzero
        omega
      · intro hnone
        exact absurd hstarts hnone.1
    · rw [holesOf_kept hstarts, and_iff_right hstarts]

lemma exists_first_hole (k : Nat) (s : List Char) : holesOf k s = 0 ∨
    ∃ x rest, s = x ++ ((placeholder k).toList ++ rest) ∧ holesOf k x = 0 := by
  induction s with
  | nil => exact .inl rfl
  | cons c s ih =>
    by_cases hstarts : (placeholder k).toList <+: c :: s
    · obtain ⟨rest, hrest⟩ := hstarts
      exact .inr ⟨[], rest, hrest.symm, rfl⟩
    · rw [holesOf_kept hstarts]
      refine ih.imp_right ?_
      rintro ⟨x, rest, rfl, hx⟩
      refine ⟨c :: x, rest, rfl, ?_⟩
      have hnone : ¬ (placeholder k).toList <+: c :: x := by
        intro hinside
        exact hstarts (hinside.trans (prefix_append (c :: x) _))
      rw [holesOf_kept hnone, hx]

/-! ## Filling one number after the others -/

section

variable {k : Nat} {w : Nat → List Char}

lemma not_starts_of_one (h : ∀ i ∈ [k], ¬ (placeholder i).toList <+: c :: rest) :
    ¬ (placeholder k).toList <+: c :: rest :=
  h k (mem_singleton_self k)

/-- Each placeholder that is filled changes the length by the same amount. -/
lemma length_fillHoles_one (k : Nat) (w : Nat → List Char) (s : List Char) :
    (fillHoles [k] w s).length + holesOf k s * (placeholder k).toList.length =
      s.length + holesOf k s * (w k).length := by
  induction s using hole_induction [k] with
  | nil => rw [fillHoles_nil, show holesOf k [] = 0 from rfl, Nat.zero_mul, Nat.zero_mul]
  | hole i hi rest ih =>
    obtain rfl := mem_singleton.1 hi
    rw [fillHoles_hole hi, holesOf_hole, length_append, length_append, Nat.add_mul, Nat.add_mul]
    omega
  | kept c rest hnone ih =>
    rw [fillHoles_kept hnone, holesOf_kept (not_starts_of_one hnone), length_cons, length_cons]
    omega

/-- Filling keeps a text exactly if there is nothing to change. -/
lemma fillHoles_one_eq_self_iff : fillHoles [k] w s = s ↔
    w k = (placeholder k).toList ∨ holesOf k s = 0 := by
  constructor
  · intro h
    by_cases hzero : holesOf k s = 0
    · exact .inr hzero
    · left
      rcases exists_first_hole k s with hnone | ⟨x, rest, rfl, hx⟩
      · exact absurd hnone hzero
      · have hlength := length_fillHoles_one k w
          (x ++ ((placeholder k).toList ++ rest))
        rw [h] at hlength
        have hsame : (w k).length = (placeholder k).toList.length :=
          Nat.eq_of_mul_eq_mul_left (Nat.pos_of_ne_zero hzero) (by omega)
        have hfirst : fillHoles [k] w x = x := by
          refine fillHoles_eq_self fun i hi => .inr ?_
          rw [mem_singleton.1 hi]
          exact holesOf_eq_zero_iff.1 hx
        rw [fillHoles_append_placeholder, hfirst, fillHoles_hole (mem_singleton_self k)] at h
        exact (append_inj (append_cancel_left h) hsame).1
  · intro h
    refine fillHoles_eq_self fun i hi => ?_
    rw [mem_singleton.1 hi, ← holesOf_eq_zero_iff]
    exact h

lemma fillHoles_succ_of_holesOf (h : holesOf k s = 0) :
    fillHoles (range (k + 1)) w s = fillHoles (range k) w s := by
  induction s using hole_induction (range (k + 1)) with
  | nil => rw [fillHoles_nil, fillHoles_nil]
  | hole i hi rest ih =>
    by_cases hik : i = k
    · rw [hik, holesOf_hole] at h
      omega
    · have hbelow : i ∈ range k := by
        rw [mem_range] at hi ⊢
        omega
      have hrest : holesOf k rest = 0 := by
        rw [holesOf_eq_zero_iff] at h ⊢
        exact fun hinside => h (hinside.trans (suffix_append _ rest).isInfix)
      rw [fillHoles_hole hi, fillHoles_hole hbelow, ih hrest]
  | kept c rest hnone ih =>
    have hbelow : ∀ i ∈ range k, ¬ (placeholder i).toList <+: c :: rest := by
      intro i hi
      rw [mem_range] at hi
      exact hnone i (mem_range.2 (by omega))
    rw [holesOf_kept (hnone k (mem_range.2 (by omega)))] at h
    rw [fillHoles_kept hnone, fillHoles_kept hbelow, ih h]

/-- The texts around a placeholder, filled below its number and up to it. -/
lemma fill_around (w : Nat → List Char) (x rest : List Char) (hx : holesOf k x = 0) :
    fillHoles (range k) w (x ++ ((placeholder k).toList ++ rest)) =
        fillHoles (range k) w x ++
          ((placeholder k).toList ++ fillHoles (range k) w rest) ∧
      fillHoles (range (k + 1)) w (x ++ ((placeholder k).toList ++ rest)) =
        fillHoles (range k) w x ++ (w k ++ fillHoles (range (k + 1)) w rest) ∧
      fillHoles [k] w (fillHoles (range k) w x ++
          ((placeholder k).toList ++ fillHoles (range k) w rest)) =
        fillHoles [k] w (fillHoles (range k) w x) ++
          (w k ++ fillHoles [k] w (fillHoles (range k) w rest)) := by
  refine ⟨?_, ?_, ?_⟩
  · rw [fillHoles_append_placeholder, fillHoles_other (by rw [mem_range]; omega)]
  · rw [fillHoles_append_placeholder, fillHoles_hole (mem_range.2 (Nat.lt_succ_self k)),
      fillHoles_succ_of_holesOf hx]
  · rw [fillHoles_append_placeholder, fillHoles_hole (mem_singleton_self k)]

/-- The placeholders with a number are still there when the numbers below have been filled, and
filling it too changes the length once for each of them. -/
lemma length_fillHoles_succ (k : Nat) (w : Nat → List Char) (s : List Char) :
    holesOf k s ≤ holesOf k (fillHoles (range k) w s) ∧
      (fillHoles (range (k + 1)) w s).length + holesOf k s * (placeholder k).toList.length =
        (fillHoles (range k) w s).length + holesOf k s * (w k).length := by
  induction hn : s.length using Nat.strong_induction_on generalizing s with
  | _ n ih =>
    rcases exists_first_hole k s with hnone | ⟨x, rest, rfl, hx⟩
    · rw [hnone, fillHoles_succ_of_holesOf hnone, Nat.zero_mul, Nat.zero_mul]
      exact ⟨Nat.zero_le _, rfl⟩
    · have hpos := length_pos_iff.2 (placeholder_ne_nil k)
      rw [length_append, length_append] at hn
      obtain ⟨hle, hlength⟩ := ih rest.length (by omega) rest rfl
      obtain ⟨hbelow, hupTo, -⟩ := fill_around w x rest hx
      rw [hbelow, hupTo, holesOf_append_placeholder, holesOf_append_placeholder,
        holesOf_hole, holesOf_hole, hx]
      simp only [length_append, Nat.add_mul]
      omega

/-- Filling number `k` around its placeholder is right exactly if both sides are. -/
lemma fill_sides_iff (w : Nat → List Char) (x rest : List Char) :
    fillHoles [k] w (fillHoles (range k) w x) ++
          (w k ++ fillHoles [k] w (fillHoles (range k) w rest)) =
        fillHoles (range k) w x ++ (w k ++ fillHoles (range (k + 1)) w rest) ↔
      fillHoles [k] w (fillHoles (range k) w x) = fillHoles (range k) w x ∧
        fillHoles [k] w (fillHoles (range k) w rest) =
          fillHoles (range (k + 1)) w rest := by
  constructor
  · intro h
    have htotal := congrArg length h
    simp only [length_append] at htotal
    have hfirst := length_fillHoles_one k w (fillHoles (range k) w x)
    have hlast := length_fillHoles_one k w (fillHoles (range k) w rest)
    obtain ⟨hle, hlength⟩ := length_fillHoles_succ k w rest
    obtain ⟨extra, hextra⟩ := Nat.exists_eq_add_of_le hle
    rw [hextra, Nat.add_mul, Nat.add_mul] at hlast
    -- both sides get shorter, or both get longer
    have hsame : (fillHoles [k] w (fillHoles (range k) w x)).length =
        (fillHoles (range k) w x).length := by
      rcases Nat.le_total (w k).length (placeholder k).toList.length with hshort | hlong
      · have hleft := Nat.mul_le_mul_left (holesOf k (fillHoles (range k) w x)) hshort
        have hright := Nat.mul_le_mul_left extra hshort
        omega
      · have hleft := Nat.mul_le_mul_left (holesOf k (fillHoles (range k) w x)) hlong
        have hright := Nat.mul_le_mul_left extra hlong
        omega
    obtain ⟨hleft, hright⟩ := append_inj h hsame
    exact ⟨hleft, append_cancel_left hright⟩
  · rintro ⟨hleft, hright⟩
    rw [hleft, hright]

/-- After the numbers below `k`, filling number `k` is filling all at once exactly if it writes its
own placeholder or they have brought in no placeholder with its number. -/
theorem fillHoles_step_iff (k : Nat) (w : Nat → List Char) (s : List Char) :
    fillHoles [k] w (fillHoles (range k) w s) = fillHoles (range (k + 1)) w s ↔
      w k = (placeholder k).toList ∨
        holesOf k (fillHoles (range k) w s) = holesOf k s := by
  -- by the first placeholder of number `k`: all before it is filled with the numbers below only
  induction hn : s.length using Nat.strong_induction_on generalizing s with
  | _ n ih =>
    rcases exists_first_hole k s with hnone | ⟨x, rest, rfl, hx⟩
    · rw [fillHoles_succ_of_holesOf hnone, fillHoles_one_eq_self_iff, hnone]
    · have hpos := length_pos_iff.2 (placeholder_ne_nil k)
      rw [length_append, length_append] at hn
      have hrest := ih rest.length (by omega) rest rfl
      have hle := (length_fillHoles_succ k w rest).1
      obtain ⟨hbelow, hupTo, hone⟩ := fill_around w x rest hx
      rw [hbelow, hupTo, hone, holesOf_append_placeholder, holesOf_append_placeholder,
        holesOf_hole, holesOf_hole, hx, fill_sides_iff, fillHoles_one_eq_self_iff, hrest]
      constructor
      · rintro ⟨hown | hleft, hown | hright⟩
        · exact .inl hown
        · exact .inl hown
        · exact .inl hown
        · exact .inr (by omega)
      · rintro (hown | hcount)
        · exact ⟨.inl hown, .inl hown⟩
        · exact ⟨.inr (by omega), .inr (by omega)⟩

end

/-! ## Rules -/

/-- Filling one more argument. -/
lemma fillFrom_concat (i : Nat) (text : String) (args : List String) (arg : String) :
    fillFrom i text (args ++ [arg]) =
      replaceAll (placeholder (i + args.length)) arg (fillFrom i text args) := by
  induction args generalizing i text with
  | nil => rfl
  | cons first args ih =>
    rw [cons_append, fillFrom, fillFrom, ih, length_cons]
    congr 2
    omega

/-- Replacing a placeholder fills its holes. -/
lemma replaceAll_placeholder (k : Nat) (arg text : String) :
    (replaceAll (placeholder k) arg text).toList =
      fillHoles [k] (fun _ => arg.toList) text.toList := by
  have hrule : literalRule (placeholder k).toList arg.toList =
      holeRule [k] fun _ => arg.toList := by
    funext before rest
    rw [literalRule, holeRule, find?_singleton]
    by_cases hstarts : (placeholder k).toList.isPrefixOf rest
    · rw [if_pos hstarts, hstarts]
      rfl
    · rw [if_neg hstarts, Bool.eq_false_iff.2 hstarts]
      rfl
  rw [replaceAll, String.toList_ofList, hrule, fillHoles]

section

variable {template : String} {args : List String}

/-- Filling one more of the arguments. -/
lemma fillFrom_take_succ (hk : k < args.length) :
    fillFrom 0 template (args.take (k + 1)) =
      replaceAll (placeholder k) args[k] (fillFrom 0 template (args.take k)) := by
  rw [take_succ_eq_append_getElem hk, fillFrom_concat, length_take_of_le hk.le, Nat.zero_add]

/-- A template that is filled at once with the first arguments. -/
lemma toList_filledAtOnce_take {m : Nat} (hm : m ≤ args.length) :
    (filledAtOnce template (args.take m)).toList =
      fillHoles (range m) (fun i => (args.getD i "").toList) template.toList := by
  rw [filledAtOnce, String.toList_ofList, length_take_of_le hm]
  refine fillHoles_congr (fun i hi => ?_) _
  rw [mem_range] at hi
  rw [getD_eq_getElem?_getD, getD_eq_getElem?_getD, getElem?_take_of_lt hi]

/-- If the first arguments have been filled at once, so is the next exactly if it is its own
placeholder or finds exactly the placeholders of the template. -/
lemma replaceAll_filledAtOnce_iff (hk : k < args.length) :
    replaceAll (placeholder k) args[k] (filledAtOnce template (args.take k)) =
        filledAtOnce template (args.take (k + 1)) ↔
      args[k] = placeholder k ∨
        occurrences (placeholder k).toList (filledAtOnce template (args.take k)).toList =
          occurrences (placeholder k).toList template.toList := by
  have harg : args.getD k "" = args[k] := by
    rw [getD_eq_getElem?_getD, getElem?_eq_getElem hk, Option.getD_some]
  have hone : fillHoles [k] (fun _ => args[k].toList) =
      fillHoles [k] fun i => (args.getD i "").toList := by
    funext s
    refine fillHoles_congr (fun i hi => ?_) s
    rw [mem_singleton.1 hi, harg]
  have hstep := fillHoles_step_iff k (fun i => (args.getD i "").toList) template.toList
  rw [harg] at hstep
  rw [← String.toList_inj, replaceAll_placeholder, toList_filledAtOnce_take hk.le,
    toList_filledAtOnce_take (Nat.succ_le_of_lt hk), hone, ← @String.toList_inj args[k]]
  exact hstep

lemma fillsTemplateOnly_iff : FillsTemplateOnly template args ↔ ∀ m ≤ args.length,
    fillFrom 0 template (args.take m) = filledAtOnce template (args.take m) := by
  constructor
  · intro h m
    induction m with
    | zero =>
      intro _
      rw [take_zero, fillFrom, filledAtOnce, length_nil, range_zero,
        fillHoles_eq_self fun i hi => absurd hi not_mem_nil, String.ofList_toList]
    | succ k ih =>
      intro hk
      rw [fillFrom_take_succ hk, ih (Nat.le_of_succ_le hk)]
      exact (replaceAll_filledAtOnce_iff hk).2 (h k hk)
  · intro h k hk
    have hnext := h (k + 1) hk
    rw [fillFrom_take_succ hk, h k hk.le] at hnext
    exact (replaceAll_filledAtOnce_iff hk).1 hnext

lemma fillsTemplateOnly_of_last (h : ∀ i, i + 1 < args.length →
    ¬ (placeholder i).toList <:+: template.toList) : FillsTemplateOnly template args := by
  intro k hk
  right
  have hnone : ∀ i ∈ range k, ¬ (placeholder i).toList <:+: template.toList := by
    intro i hi
    rw [mem_range] at hi
    exact h i (by omega)
  rw [toList_filledAtOnce_take hk.le, fillHoles_eq_self fun i hi => .inr (hnone i hi)]

/-- Argument `i` brings in the placeholder of the last one, which is empty; the others are their own
placeholders. -/
def meddlingArgs (count i : Nat) : List String :=
  (range count).map fun k =>
    if k = i then placeholder (count - 1) else if k + 1 = count then "" else placeholder k

lemma length_meddlingArgs (count i : Nat) : (meddlingArgs count i).length = count := by
  rw [meddlingArgs, length_map, length_range]

/-- The arguments one by one. -/
lemma getElem_meddlingArgs {count : Nat} (hk : k < (meddlingArgs count i).length) :
    (meddlingArgs count i)[k] =
      if k = i then placeholder (count - 1) else if k + 1 = count then "" else placeholder k := by
  simp only [meddlingArgs, getElem_map, getElem_range]

/-- All of them but the last are filled at once. -/
lemma fillFrom_take_meddlingArgs {last : Nat} (hi : i < last) :
    fillFrom 0 template ((meddlingArgs (last + 1) i).take last) =
      filledAtOnce template ((meddlingArgs (last + 1) i).take last) := by
  have hlength := length_meddlingArgs (last + 1) i
  have hall : FillsTemplateOnly template ((meddlingArgs (last + 1) i).take last) := by
    intro k hk
    rw [length_take, hlength] at hk
    rw [getElem_take, take_take, Nat.min_eq_left (by omega), getElem_meddlingArgs]
    by_cases hki : k = i
    · right
      have hown : ∀ j ∈ range k,
          ((meddlingArgs (last + 1) i).getD j "").toList = (placeholder j).toList := by
        intro j hj
        rw [mem_range] at hj
        rw [getD_eq_getElem?_getD, getElem?_eq_getElem (by omega), Option.getD_some,
          getElem_meddlingArgs, if_neg (by omega), if_neg (by omega)]
      rw [toList_filledAtOnce_take (by omega), fillHoles_eq_self fun j hj => .inl (hown j hj)]
    · left
      rw [if_neg hki, if_neg (by omega)]
  have hfilled := fillsTemplateOnly_iff.1 hall _ le_rfl
  rwa [take_length] at hfilled

/-- The last one takes out the placeholder that number `i` has brought in. -/
lemma fillFrom_meddlingArgs_ne {last : Nat} (hi : i < last)
    (hplace : (placeholder i).toList <:+: template.toList) :
    fillFrom 0 template (meddlingArgs (last + 1) i) ≠
      filledAtOnce template (meddlingArgs (last + 1) i) := by
  intro heq
  have hlength := length_meddlingArgs (last + 1) i
  have hlast : last < (meddlingArgs (last + 1) i).length := by omega
  rw [← take_of_length_le (l := meddlingArgs (last + 1) i) hlength.le,
    fillFrom_take_succ hlast, fillFrom_take_meddlingArgs hi, replaceAll_filledAtOnce_iff hlast]
    at heq
  rcases heq with hown | hcount
  · rw [getElem_meddlingArgs, if_neg (by omega), if_pos rfl] at hown
    exact placeholder_ne_nil last (by rw [← hown]; rfl)
  · have hbrought : ((meddlingArgs (last + 1) i).getD i "").toList =
        (placeholder last).toList := by
      rw [getD_eq_getElem?_getD, getElem?_eq_getElem (by omega), Option.getD_some,
        getElem_meddlingArgs, if_pos rfl, Nat.add_sub_cancel]
    obtain ⟨x, rest, htemplate, -⟩ := (exists_first_hole i template.toList).resolve_left
      fun hnone => holesOf_eq_zero_iff.1 hnone hplace
    have hx := (length_fillHoles_succ last
      (fun j => ((meddlingArgs (last + 1) i).getD j "").toList) x).1
    have hrest := (length_fillHoles_succ last
      (fun j => ((meddlingArgs (last + 1) i).getD j "").toList) rest).1
    rw [toList_filledAtOnce_take hlast.le, htemplate, fillHoles_append_placeholder,
      fillHoles_hole (mem_range.2 hi), hbrought, ← holesOf, ← holesOf,
      holesOf_append_placeholder, holesOf_append_placeholder, holesOf_hole,
      holesOf_other (Nat.ne_of_gt hi)] at hcount
    omega

/-- Filling placeholders one after the other fills them at once, up to each argument, exactly if the
arguments before it have brought in no placeholder with its number, or it is its own placeholder. A
rule does so whatever the arguments hold exactly if it has places for the last argument only. -/
theorem render_at_once_iff {rule : FunctionRule} {template : String}
    (hrule : rule.template = some template) :
    (∀ args, rule.accepts args.length = true → FillsTemplateOnly template args →
        rule.render args = .ok (filledAtOnce template args)) ∧
      (∀ args, FillsTemplateOnly template args ↔ ∀ m ≤ args.length,
        fillFrom 0 template (args.take m) = filledAtOnce template (args.take m)) ∧
      ((∀ args, rule.accepts args.length = true →
          rule.render args = .ok (filledAtOnce template args)) ↔
        ∀ count i, rule.accepts count = true → i + 1 < count →
          ¬ (placeholder i).toList <:+: template.toList) := by
  have hrender : ∀ args, rule.accepts args.length →
      rule.render args = .ok (fillFrom 0 template args) := by
    intro args haccepts
    rw [render, if_pos haccepts, hrule]
  have hfilled : ∀ args, FillsTemplateOnly template args →
      fillFrom 0 template args = filledAtOnce template args := by
    intro args hargs
    have hall := fillsTemplateOnly_iff.1 hargs _ le_rfl
    rwa [take_length] at hall
  refine ⟨?_, fun args => fillsTemplateOnly_iff, ?_, ?_⟩
  · intro args haccepts hargs
    rw [hrender args haccepts, hfilled args hargs]
  · intro h count i haccepts hi hplace
    obtain ⟨last, rfl⟩ : ∃ last, count = last + 1 := ⟨count - 1, by omega⟩
    have haccepted : rule.accepts (meddlingArgs (last + 1) i).length := by
      rw [length_meddlingArgs]
      exact haccepts
    have hsame := h _ haccepted
    rw [hrender _ haccepted] at hsame
    exact fillFrom_meddlingArgs_ne (Nat.lt_of_succ_lt_succ hi) hplace (Except.ok.inj hsame)
  · intro h args haccepts
    rw [hrender args haccepts,
      hfilled args (fillsTemplateOnly_of_last fun i hi => h args.length i haccepts hi)]

/-- The first argument has a place, so a text with a placeholder in it takes up the second; a column
name does not. -/
theorem render_at_once_leftPart :
    ¬ (∀ args, (templated 2 "SUBSTRING(\x7b0\x7d, 1, \x7b1\x7d)").accepts args.length = true →
        (templated 2 "SUBSTRING(\x7b0\x7d, 1, \x7b1\x7d)").render args =
          .ok (filledAtOnce "SUBSTRING(\x7b0\x7d, 1, \x7b1\x7d)" args)) ∧
      (templated 2 "SUBSTRING(\x7b0\x7d, 1, \x7b1\x7d)").render ["Name", "3"] =
        .ok (filledAtOnce "SUBSTRING(\x7b0\x7d, 1, \x7b1\x7d)" ["Name", "3"]) := by
  obtain ⟨hargs, -, hall⟩ := @render_at_once_iff
    (templated 2 "SUBSTRING(\x7b0\x7d, 1, \x7b1\x7d)") _ rfl
  constructor
  · intro h
    exact hall.1 h 2 0 (by decide) (by decide) (by decide +kernel)
  · refine hargs _ (by decide) fun k hk => .inr ?_
    obtain rfl | rfl : k = 0 ∨ k = 1 := by
      rw [length_cons, length_cons, length_nil] at hk
      omega
    · decide +kernel
    · decide +kernel

end

end FunctionRule

end StreamQuery
