import Mathlib.Algebra.Group.Nat.Defs
import StreamQuery.Proofs.SplitTexts
import StreamQuery.Timeframe

/-!
# Tokens of timeframes

A token is read backwards: the two letters of weeks and months come before the single letters, and
what stands in front of the unit is the count.  The digits of a number below `2 ^ 32` are read as
that number (`natural?_digits`), so a timeframe is read back from its token
(`Timeframe.ofToken_token`).  Whatever text is read, the count is a number of 32 bits and not zero.
-/

namespace StreamQuery

open List

namespace Text

lemma digitsValue?_eq {digits : List Char} (h : ∀ c ∈ digits, c.isDigit) :
    digitsValue? digits = some (Nat.ofDigitChars 10 digits 0) := by
  have hfold : ∀ n, digits.foldlM (fun n c =>
      if c.isDigit then some (10 * n + (c.toNat - 48)) else none) n =
        some (Nat.ofDigitChars 10 digits n) := by
    induction digits with
    | nil => exact fun n => rfl
    | cons c digits ih =>
      intro n
      rw [foldlM_cons, if_pos (h c mem_cons_self)]
      exact ih (forall_mem_cons.1 h).2 _
  exact hfold 0

/-- The decimal digits of a number are read as the number. -/
lemma natural?_digits {bits n : Nat} (h : n < 2 ^ bits) :
    natural? bits (Nat.toDigits 10 n) = some n := by
  have hdigits : ∀ c ∈ Nat.toDigits 10 n, c.isDigit := fun c hc =>
    Nat.isDigit_of_mem_toDigits (by decide) (by decide) hc
  unfold natural?
  split
  next digits rest heq =>
    -- a plus sign is no digit
    exact absurd (hdigits '+' (heq ▸ mem_cons_self)) (by decide)
  next =>
    have hvalue := digitsValue?_eq hdigits
    rw [Nat.ofDigitChars_ten_toDigits] at hvalue
    rw [if_neg (by simp [Nat.toDigits_ne_nil]), hvalue]
    exact Option.filter_some_pos (decide_eq_true h)

lemma natural?_lt {bits n : Nat} {s : List Char} (h : natural? bits s = some n) : n < 2 ^ bits := by
  unfold natural? at h
  extract_lets digits at h
  split at h
  · cases h
  · exact of_decide_eq_true (Option.filter_eq_some_iff.1 h).2

end Text

namespace Timeframe

lemma readCount_pos (s : List Char) : 1 ≤ readCount s :=
  Nat.le_max_left 1 _

lemma readCount_lt (s : List Char) : readCount s < 2 ^ 32 := by
  have hvalue : (Text.natural? 32 (Text.trim s)).getD 0 < 2 ^ 32 := by
    cases h : Text.natural? 32 (Text.trim s) with
    | none => decide
    | some n => exact Text.natural?_lt h
  exact Nat.max_lt.2 ⟨by decide, hvalue⟩

/-- Digits and small letters are neither white space nor capitals. -/
lemma classes_of_plain {c : Char} (h : c.isDigit ∨ c.isLower) :
    Text.isBlank c = false ∧ c.toLower = c := by
  unfold Char.isDigit Char.isLower at h
  simp only [Bool.and_eq_true, decide_eq_true_eq, ge_iff_le, UInt32.le_iff_toNat_le] at h
  change 48 ≤ c.toNat ∧ c.toNat ≤ 57 ∨ 97 ≤ c.toNat ∧ c.toNat ≤ 122 at h
  constructor
  · simp only [Text.isBlank, Bool.or_eq_false_iff, Bool.and_eq_false_iff, decide_eq_false_iff_not,
      beq_eq_false_iff_ne]
    omega
  · unfold Char.toLower
    refine dif_neg fun hcapital => ?_
    have hmost : c.toNat ≤ 90 := UInt32.le_iff_toNat_le.1 hcapital.2
    have hleast : 65 ≤ c.toNat := UInt32.le_iff_toNat_le.1 hcapital.1
    omega

lemma readCount_digits {n : Nat} (hpos : 1 ≤ n) (h : n < 2 ^ 32) :
    readCount (Nat.toDigits 10 n) = n := by
  have htrim : Text.trim (Nat.toDigits 10 n) = Nat.toDigits 10 n := Text.trim_eq_self fun c hc =>
    (classes_of_plain (.inl (Nat.isDigit_of_mem_toDigits (by decide) (by decide) hc))).1
  rw [readCount, htrim, Text.natural?_digits h]
  exact Nat.max_eq_right hpos

/-- The letters of a unit behind a count are read as the unit. -/
lemma ofReversed_token (unit : TimeUnit) (count : List Char) :
    ofReversed (count ++ unit.token.toList).reverse = ⟨readCount count, unit⟩ := by
  rw [reverse_append]
  have hcount : readCount count.reverse.reverse = readCount count := by rw [reverse_reverse]
  cases unit <;> exact congrArg (mk · _) hcount

/-- A timeframe is read back from its token. -/
lemma ofToken_token {t : Timeframe} (hpos : 1 ≤ t.count) (h : t.count < 2 ^ 32) :
    ofToken t.token = t := by
  have htoken : t.token.toList = Nat.toDigits 10 t.count ++ t.unit.token.toList := by
    rw [token, String.toList_append, Nat.toString_eq_repr, Nat.toList_repr]
  have hunit : t.unit.token.toList.all Char.isLower := by
    cases t.unit <;> decide
  have hclasses : ∀ c ∈ t.token.toList, Text.isBlank c = false ∧ c.toLower = c := by
    intro c hc
    rw [htoken, mem_append] at hc
    exact classes_of_plain (hc.imp (Nat.isDigit_of_mem_toDigits (by decide) (by decide))
      (all_eq_true.1 hunit c))
  have hlower : t.token.toList.map Char.toLower = t.token.toList :=
    (map_congr_left fun c hc => (hclasses c hc).2).trans (map_id' _)
  rw [ofToken, Text.trim_eq_self fun c hc => (hclasses c hc).1, hlower, htoken, ofReversed_token,
    readCount_digits hpos h]

lemma ofToken_count (s : String) : 1 ≤ (ofToken s).count ∧ (ofToken s).count < 2 ^ 32 := by
  have hread : ∀ r, (ofReversed r).count = 1 ∨ ∃ s, (ofReversed r).count = readCount s := by
    intro r
    unfold ofReversed
    split
    · exact .inl rfl
    · exact .inr ⟨_, rfl⟩
    · exact .inr ⟨_, rfl⟩
    · exact .inr ⟨_, rfl⟩
  rcases hread _ with h | ⟨s, h⟩
  · rw [ofToken, h]
    decide
  · rw [ofToken, h]
    exact ⟨readCount_pos s, readCount_lt s⟩

end Timeframe

/-- A timeframe with a positive count of 32 bits is what its token is read as. Every text is read as
such a timeframe, so reading the token of what was read gives it again. -/
theorem timeframe_token_round_trip :
    (∀ t : Timeframe, 1 ≤ t.count → t.count < 2 ^ 32 → Timeframe.ofToken t.token = t) ∧
      ∀ s : String, (1 ≤ (Timeframe.ofToken s).count ∧ (Timeframe.ofToken s).count < 2 ^ 32) ∧
        Timeframe.ofToken (Timeframe.ofToken s).token = Timeframe.ofToken s := by
  refine ⟨fun t hpos h => Timeframe.ofToken_token hpos h, fun s => ?_⟩
  have hcount := Timeframe.ofToken_count s
  exact ⟨hcount, Timeframe.ofToken_token hcount.1 hcount.2⟩

/-- The greatest count, with the unit whose first letter is a unit itself. -/
theorem timeframe_token_round_trip_months :
    Timeframe.ofToken (Timeframe.token ⟨4294967295, .months⟩) = ⟨4294967295, .months⟩ :=
  timeframe_token_round_trip.1 _ (by decide) (by decide)

end StreamQuery
