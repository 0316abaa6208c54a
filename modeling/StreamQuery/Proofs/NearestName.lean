import Mathlib.Data.Prod.Lex
import Mathlib.Data.String.Basic
import StreamQuery.Proofs.EditDistance

/-!
# The hint is the nearest name

A hint names a candidate at a distance from one to the limit.  Among these it is the least by
distance and then by name (`rank`), and there is only one such candidate (`IsNearest.eq`).  The
search keeps the least of the candidates that it has passed (`Keeps.step`), so neither their order
nor their repetitions count.
-/

namespace StreamQuery.Hint

open List

section

variable {d : String → Nat} {limit : Nat} {candidates : List String}

/-- The rank of a name: its distance, and then the name itself. -/
def rank (d : String → Nat) (name : String) : Nat ×ₗ String :=
  toLex (d name, name)

/-- The least of the candidates at a distance from one to the limit. -/
structure IsNearest (d : String → Nat) (limit : Nat) (candidates : List String) (name : String) :
    Prop where
  mem : name ∈ candidates
  inRange : 1 ≤ d name ∧ d name ≤ limit
  least : ∀ other ∈ candidates, 1 ≤ d other ∧ d other ≤ limit → rank d name ≤ rank d other

/-- There is only one nearest candidate. -/
lemma IsNearest.eq {name name' : String} (h : IsNearest d limit candidates name)
    (h' : IsNearest d limit candidates name') : name = name' :=
  congrArg (Prod.snd ∘ ofLex) <|
    (h.least name' h'.mem h'.inRange).antisymm (h'.least name h.mem h.inRange)

lemma IsNearest.of_same {others : List String} {name : String}
    (h : IsNearest d limit candidates name) (hsame : ∀ c, c ∈ others ↔ c ∈ candidates) :
    IsNearest d limit others name :=
  ⟨(hsame name).2 h.mem, h.inRange, fun c hc => h.least c ((hsame c).1 hc)⟩

/-- One step of the search. -/
def consider (d : String → Nat) (limit : Nat) (best : Option (String × Nat)) (name : String) :
    Option (String × Nat) :=
  if d name == 0 || limit < d name then best else better best name (d name)

/-- What the search has kept of the candidates that it has passed. -/
def Keeps (d : String → Nat) (limit : Nat) (passed : List String) : Option (String × Nat) → Prop
  | none => ∀ name ∈ passed, ¬ (1 ≤ d name ∧ d name ≤ limit)
  | some best => best.2 = d best.1 ∧ IsNearest d limit passed best.1

/-- Of two names the one of lower rank is kept. -/
lemma better_some (d : String → Nat) (best name : String) :
    better (some (best, d best)) name (d name) =
      if rank d name < rank d best then some (name, d name) else some (best, d best) := by
  simp only [better, rank, Prod.Lex.toLex_lt_toLex, Bool.or_eq_true, Bool.and_eq_true,
    decide_eq_true_eq, beq_iff_eq]

lemma Keeps.step {passed : List String} {best : Option (String × Nat)}
    (h : Keeps d limit passed best) (name : String) :
    Keeps d limit (passed ++ [name]) (consider d limit best name) := by
  have hrange : (d name == 0 || limit < d name) ↔ ¬ (1 ≤ d name ∧ d name ≤ limit) := by
    rw [Bool.or_eq_true, beq_iff_eq, decide_eq_true_eq]
    omega
  have hlast : name ∈ passed ++ [name] := mem_append_right _ (mem_singleton_self name)
  -- what holds of the passed candidates and of the name holds of all
  have hall : ∀ {p : String → Prop}, (∀ c ∈ passed, p c) → p name → ∀ c ∈ passed ++ [name], p c :=
    fun hpassed hname => forall_mem_append.2 ⟨hpassed, forall_mem_singleton.2 hname⟩
  unfold consider
  split
  · next hout =>
    rw [hrange] at hout
    cases best with
    | none => exact hall h hout
    | some best =>
      exact ⟨h.1, mem_append_left _ h.2.mem, h.2.inRange,
        hall h.2.least fun hin => absurd hin hout⟩
  · next hin =>
    rw [hrange, not_not] at hin
    cases best with
    | none =>
      exact ⟨rfl, hlast, hin, hall (fun c hc hin => absurd hin (h c hc)) fun _ => le_rfl⟩
    | some best =>
      obtain ⟨best, e⟩ := best
      obtain ⟨hdistance, hbest⟩ := h
      rw [show e = d best from hdistance, better_some]
      split
      · next hlt =>
        exact ⟨rfl, hlast, hin,
          hall (fun c hc hin => hlt.le.trans (hbest.least c hc hin)) fun _ => le_rfl⟩
      · next hle =>
        exact ⟨rfl, mem_append_left _ hbest.mem, hbest.inRange,
          hall hbest.least fun _ => not_lt.1 hle⟩

lemma keeps_foldl (d : String → Nat) (limit : Nat) (candidates : List String) :
    Keeps d limit candidates (candidates.foldl (consider d limit) none) := by
  induction candidates using reverseRecOn with
  | nil => exact fun name hname => absurd hname not_mem_nil
  | append_singleton passed name ih =>
    rw [foldl_append]
    exact ih.step name

end

variable {input : String} {candidates : List String} {limit : Nat}

lemma nearest?_eq (input : String) (candidates : List String) (limit : Nat) :
    nearest? input candidates limit =
      (candidates.foldl (consider (distance input) limit) none).map Prod.fst :=
  rfl

lemma nearest?_eq_some_iff {name : String} :
    nearest? input candidates limit = some name ↔
      IsNearest (distance input) limit candidates name := by
  have hkept := keeps_foldl (distance input) limit candidates
  rw [nearest?_eq]
  cases hbest : candidates.foldl (consider (distance input) limit) none with
  | none =>
    rw [hbest] at hkept
    simpa using fun h : IsNearest (distance input) limit candidates name =>
      hkept name h.mem h.inRange
  | some best =>
    rw [hbest] at hkept
    rw [Option.map_some, Option.some.injEq]
    constructor
    · rintro rfl
      exact hkept.2
    · intro h
      exact hkept.2.eq h

lemma nearest?_eq_none_iff : nearest? input candidates limit = none ↔
    ∀ name ∈ candidates, ¬ (1 ≤ distance input name ∧ distance input name ≤ limit) := by
  have hkept := keeps_foldl (distance input) limit candidates
  rw [nearest?_eq, Option.map_eq_none_iff]
  cases hbest : candidates.foldl (consider (distance input) limit) none with
  | none =>
    rw [hbest] at hkept
    exact iff_of_true rfl hkept
  | some best =>
    rw [hbest] at hkept
    exact iff_of_false (by simp) fun h => h best.1 hkept.2.mem hkept.2.inRange

/-- The hint for an input is the nearest candidate, by edits of the bytes in lower case. There is
one exactly if some candidate is at a distance from one to the limit; it comes first by distance and
then by name; and the order and repetitions of the candidates do not matter. -/
theorem nearest?_canonical (input : String) (candidates : List String) (limit : Nat) :
    (∀ name, IsLeast {n | EditedIn n (bytes (Text.lower input)) (bytes (Text.lower name))}
      (distance input name)) ∧
    ((∃ name, nearest? input candidates limit = some name) ↔
      ∃ name ∈ candidates, 1 ≤ distance input name ∧ distance input name ≤ limit) ∧
    (∀ name, nearest? input candidates limit = some name ↔
      IsNearest (distance input) limit candidates name) ∧
    ∀ others : List String, (∀ name, name ∈ others ↔ name ∈ candidates) →
      nearest? input others limit = nearest? input candidates limit := by
  refine ⟨fun name => isLeast_editDistance _ _, ?_, fun name => nearest?_eq_some_iff, ?_⟩
  · rw [← Option.ne_none_iff_exists', ne_eq, nearest?_eq_none_iff]
    simp only [not_forall, not_not, exists_prop]
  · intro others hsame
    refine Option.ext fun name => ?_
    rw [nearest?_eq_some_iff, nearest?_eq_some_iff]
    exact ⟨fun h => h.of_same fun c => (hsame c).symm, fun h => h.of_same hsame⟩

/-- `Min` and `Max` are one letter away from the input, which is a candidate itself in another case;
the hint is the smaller one, in either order. -/
theorem nearest?_canonical_minMax :
    (∀ name, name ∈ ["Max", "Sum", "MIX", "Max", "Min"] ↔ name ∈ ["Min", "Max", "MIX", "Sum"]) ∧
      nearest? "Mix" ["Min", "Max", "MIX", "Sum"] 2 = some "Max" ∧
      nearest? "Mix" ["Max", "Sum", "MIX", "Max", "Min"] 2 = some "Max" := by
  have hsame : ∀ name, name ∈ ["Max", "Sum", "MIX", "Max", "Min"] ↔
      name ∈ ["Min", "Max", "MIX", "Sum"] := by
    intro name
    simp only [mem_cons, not_mem_nil, or_false]
    tauto
  have hhint : nearest? "Mix" ["Min", "Max", "MIX", "Sum"] 2 = some "Max" := by decide +kernel
  exact ⟨hsame, hhint, ((nearest?_canonical "Mix" _ 2).2.2.2 _ hsame).trans hhint⟩

end StreamQuery.Hint
