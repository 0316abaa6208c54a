import StreamQuery.Proofs.TimeframeTokens
import StreamQuery.Statement.Windowed

/-!
# Sizes of windows

The size of a tumbling window is written in the unit of its timeframe, and weeks as days; that of a
hopping window is a duration, written in the largest unit up to days that measures it.  So one
timeframe can have two texts, such as `1 MONTHS` and `30 DAYS`.  Read back from the window clause, a
month being thirty days, both stand for the seconds of the timeframe, which fit 64 bits.

Both writers write a count of a unit (`Timeframe.measures_sizeText`, `Duration.measures_text`), and
the reader asks for no more (`operandSeconds?_of_measures`).
-/

namespace StreamQuery

open List

/-- The units of durations, with their seconds. -/
def wholeUnits : List (String × Nat) :=
  [("SECONDS", 1), ("MINUTES", 60), ("HOURS", 3600), ("DAYS", 86400)]

/-- The units of window sizes, with their seconds.  A month has thirty days. -/
def sizeUnits : List (String × Nat) :=
  ("MONTHS", 30 * 86400) :: wholeUnits

/-- Reads an operand: a count of 64 bits, a blank and a unit. -/
def operandSeconds? (operand : List Char) : Option Nat := do
  let count ← Text.natural? 64 (operand.takeWhile (· != ' '))
  let seconds ← sizeUnits.lookup (String.ofList ((operand.dropWhile (· != ' ')).drop 1))
  return count * seconds

/-- The operand behind the first bracket of a window clause: that of SIZE. -/
def sizeOperand? (clause : List Char) : Option (List Char) :=
  match clause.dropWhile (· != '(') with
  | '(' :: 'S' :: 'I' :: 'Z' :: 'E' :: ' ' :: rest =>
    some (rest.takeWhile fun c => c != ',' && c != ')')
  | _ => none

/-- The seconds that the SIZE operand of a window clause stands for. -/
def sizeSeconds? (clause : String) : Option Nat :=
  (sizeOperand? clause.toList).bind operandSeconds?

/-- The text is a count of the unit, and of that many seconds in all. -/
def Measures (text : String) (unit : String × Nat) (seconds : Nat) : Prop :=
  ∃ count, text = toString count ++ (" " ++ unit.1) ∧ count * unit.2 = seconds

variable {text : String} {unit : String × Nat} {seconds : Nat}

/-! ## Reading -/

lemma Measures.toList (h : Measures text unit seconds) : ∃ count, text.toList =
    Nat.toDigits 10 count ++ ' ' :: unit.1.toList ∧ count * unit.2 = seconds := by
  obtain ⟨count, rfl, rfl⟩ := h
  refine ⟨count, ?_, rfl⟩
  simp [String.toList_append]

/-- What is read from a count of a unit is its seconds, if they fit 64 bits. -/
lemma operandSeconds?_of_measures (h : Measures text unit seconds) (hunit : unit ∈ sizeUnits)
    (hbits : seconds < 2 ^ 64) : operandSeconds? text.toList = some seconds := by
  obtain ⟨count, htext, rfl⟩ := h.toList
  have hdigits : ∀ c ∈ Nat.toDigits 10 count, (c != ' ') := by
    intro c hc
    have hdigit := Nat.isDigit_of_mem_toDigits (by decide) (by decide) hc
    exact bne_iff_ne.2 fun hblank => absurd (hblank ▸ hdigit) (by decide)
  have hlookup : sizeUnits.lookup unit.1 = some unit.2 ∧ 1 ≤ unit.2 := by
    simp only [sizeUnits, wholeUnits, mem_cons, not_mem_nil, or_false] at hunit
    rcases hunit with rfl | rfl | rfl | rfl | rfl <;> exact ⟨rfl, by decide⟩
  have hcount : count < 2 ^ 64 :=
    Nat.lt_of_le_of_lt (Nat.le_mul_of_pos_right count hlookup.2) hbits
  unfold operandSeconds?
  rw [htext, takeWhile_append_of_pos hdigits, dropWhile_append_of_pos hdigits]
  simp [Text.natural?_digits hcount, hlookup.1]

/-- The operand of a clause ends at the next comma or bracket. -/
lemma sizeSeconds?_of_measures (h : Measures text unit seconds) (hunit : unit ∈ sizeUnits)
    (hbits : seconds < 2 ^ 64) {kind rest : String} (hkind : kind.toList.all (· != '('))
    (hrest : rest.toList.head?.any (fun c => c == ',' || c == ')')) :
    sizeSeconds? (kind ++ "(SIZE " ++ text ++ rest) = some seconds := by
  have hinside : ∀ c ∈ text.toList, (c != ',' && c != ')') := by
    obtain ⟨count, htext, -⟩ := h.toList
    have hword : (' ' :: unit.1.toList).all (fun c => c != ',' && c != ')') := by
      simp only [sizeUnits, wholeUnits, mem_cons, not_mem_nil, or_false] at hunit
      rcases hunit with rfl | rfl | rfl | rfl | rfl <;> decide
    intro c hc
    rw [htext, mem_append] at hc
    rcases hc with hc | hc
    · have hdigit := Nat.isDigit_of_mem_toDigits (by decide) (by decide) hc
      rw [Bool.and_eq_true, bne_iff_ne, bne_iff_ne]
      exact ⟨fun hcomma => absurd (hcomma ▸ hdigit) (by decide),
        fun hbracket => absurd (hbracket ▸ hdigit) (by decide)⟩
    · exact all_eq_true.1 hword c hc
  have hstop : rest.toList.takeWhile (fun c => c != ',' && c != ')') = [] := by
    cases hchars : rest.toList with
    | nil => rfl
    | cons c chars =>
      rw [hchars] at hrest
      exact takeWhile_cons_of_neg (by simpa [imp_iff_not_or] using hrest)
  have hoperand : sizeOperand? (kind ++ "(SIZE " ++ text ++ rest).toList = some text.toList := by
    unfold sizeOperand?
    rw [String.toList_append, String.toList_append, String.toList_append, append_assoc,
      append_assoc, dropWhile_append_of_pos (all_eq_true.1 hkind)]
    change some ((text.toList ++ rest.toList).takeWhile _) = _
    rw [takeWhile_append_of_pos hinside, hstop, append_nil]
  rw [sizeSeconds?, hoperand]
  exact operandSeconds?_of_measures h hunit hbits

/-! ## Writing -/

/-- A timeframe is written as its seconds. -/
lemma Timeframe.measures_sizeText (t : Timeframe) :
    ∃ unit ∈ sizeUnits, Measures t.sizeText unit t.seconds := by
  unfold sizeText seconds
  cases t.unit with
  | seconds => exact ⟨("SECONDS", 1), by decide, t.count, rfl, rfl⟩
  | minutes => exact ⟨("MINUTES", 60), by decide, t.count, rfl, rfl⟩
  | hours => exact ⟨("HOURS", 3600), by decide, t.count, rfl, rfl⟩
  | days => exact ⟨("DAYS", 86400), by decide, t.count, rfl, rfl⟩
  | weeks => exact ⟨("DAYS", 86400), by decide, t.count * 7, rfl, Nat.mul_assoc t.count 7 86400⟩
  | months => exact ⟨("MONTHS", 30 * 86400), by decide, t.count, rfl, rfl⟩

lemma not_dvd_of_skipped {k n : Nat} (h : ¬ (k ≤ n && n % k == 0)) (hn : n ≠ 0) : ¬ k ∣ n := by
  intro hdvd
  refine h ?_
  rw [Bool.and_eq_true, decide_eq_true_eq, beq_iff_eq]
  exact ⟨Nat.le_of_dvd (Nat.pos_of_ne_zero hn) hdvd, Nat.mod_eq_zero_of_dvd hdvd⟩

lemma forall_wholeUnits {p : String × Nat → Prop} (hseconds : p ("SECONDS", 1))
    (hminutes : p ("MINUTES", 60)) (hhours : p ("HOURS", 3600)) (hdays : p ("DAYS", 86400)) :
    ∀ unit ∈ wholeUnits, p unit := by
  simpa [wholeUnits] using ⟨hseconds, hminutes, hhours, hdays⟩

/-- A duration is its whole seconds, in the largest unit that divides them. -/
lemma Duration.measures_text (d : Duration) :
    ∃ unit ∈ wholeUnits, Measures d.text unit d.seconds ∧ (d.seconds = 0 → unit.1 = "SECONDS") ∧
      (d.seconds ≠ 0 → ∀ other ∈ wholeUnits, other.2 ∣ d.seconds → other.2 ≤ unit.2) := by
  have htaken : ∀ {k n : Nat}, (k ≤ n && n % k == 0) → n / k * k = n ∧ k ≤ n := by
    intro k n h
    rw [Bool.and_eq_true, decide_eq_true_eq, beq_iff_eq] at h
    exact ⟨Nat.div_mul_cancel (Nat.dvd_of_mod_eq_zero h.2), h.1⟩
  unfold text
  dsimp only
  -- the units are tried from the largest one down, and a unit that is passed over does not divide
  split
  · next hdays =>
    have hcount := htaken hdays
    refine ⟨("DAYS", 86400), by decide, ⟨_, rfl, hcount.1⟩, fun hzero => by omega, fun _ => ?_⟩
    exact forall_wholeUnits (fun _ => by decide) (fun _ => by decide) (fun _ => by decide)
      fun _ => Nat.le_refl _
  · next hdays =>
    split
    · next hhours =>
      have hcount := htaken hhours
      refine ⟨("HOURS", 3600), by decide, ⟨_, rfl, hcount.1⟩, fun hzero => by omega, fun hn => ?_⟩
      exact forall_wholeUnits (fun _ => by decide) (fun _ => by decide) (fun _ => Nat.le_refl _)
        fun h => absurd h (not_dvd_of_skipped hdays hn)
    · next hhours =>
      split
      · next hminutes =>
        have hcount := htaken hminutes
        refine ⟨("MINUTES", 60), by decide, ⟨_, rfl, hcount.1⟩, fun hzero => by omega, fun hn => ?_⟩
        exact forall_wholeUnits (fun _ => by decide) (fun _ => Nat.le_refl _)
          (fun h => absurd h (not_dvd_of_skipped hhours hn))
          fun h => absurd h (not_dvd_of_skipped hdays hn)
      · next hminutes =>
        refine ⟨("SECONDS", 1), by decide, ⟨_, rfl, Nat.mul_one _⟩, fun _ => rfl, fun hn => ?_⟩
        exact forall_wholeUnits (fun _ => Nat.le_refl _)
          (fun h => absurd h (not_dvd_of_skipped hminutes hn))
          (fun h => absurd h (not_dvd_of_skipped hhours hn))
          fun h => absurd h (not_dvd_of_skipped hdays hn)

/-! ## The two sizes of a timeframe -/

lemma Timeframe.mul_lt_of_dvd (token : String) {k : Nat}
    (hk : k ∣ (ofToken token).unit.inSeconds) : (ofToken token).count * k < 2 ^ 64 := by
  have hcount := (ofToken_count token).2
  have hunit : ∀ unit : TimeUnit, 0 < unit.inSeconds ∧ unit.inSeconds ≤ 2592000 := by
    intro unit
    cases unit <;> decide
  have hbound := Nat.le_trans (Nat.le_of_dvd (hunit _).1 hk) (hunit _).2
  calc (ofToken token).count * k ≤ 2 ^ 32 * 2592000 := Nat.mul_le_mul (Nat.le_of_lt hcount) hbound
    _ < 2 ^ 64 := by decide

lemma Timeframe.seconds_duration (t : Timeframe) : t.duration.seconds = t.seconds :=
  Nat.mul_div_cancel _ (by decide)

/-- A tumbling and a hopping window of one timeframe have its size in seconds, whatever their grace
and advance, and no product on the way to it exceeds 64 bits.  A duration is written as a count of
days, hours, minutes or seconds that makes its whole seconds, in the largest unit that divides them,
and in seconds if there are none. -/
theorem window_sizes_agree (t : WindowedTarget) (grace : Option Nat) (advance : Duration) :
    sizeSeconds? ({ t with hop := none }.window grace).sql =
        some (Timeframe.ofToken t.timeframe).seconds ∧
      sizeSeconds? ({ t with hop := some advance }.window grace).sql =
        some (Timeframe.ofToken t.timeframe).seconds ∧
      (∀ k, k ∣ (Timeframe.ofToken t.timeframe).unit.inSeconds →
        (Timeframe.ofToken t.timeframe).count * k < 2 ^ 64) ∧
      ∀ d : Duration, ∃ unit ∈ wholeUnits, Measures d.text unit d.seconds ∧
        (d.seconds = 0 → unit.1 = "SECONDS") ∧
        (d.seconds ≠ 0 → ∀ other ∈ wholeUnits, other.2 ∣ d.seconds → other.2 ≤ unit.2) := by
  have hbits : (Timeframe.ofToken t.timeframe).seconds < 2 ^ 64 :=
    Timeframe.mul_lt_of_dvd t.timeframe (Nat.dvd_refl _)
  refine ⟨?_, ?_, fun k => Timeframe.mul_lt_of_dvd t.timeframe, Duration.measures_text⟩
  · obtain ⟨unit, hunit, hsize⟩ := (Timeframe.ofToken t.timeframe).measures_sizeText
    have hsql : ({ t with hop := none }.window grace).sql =
        "WINDOW TUMBLING " ++ "(SIZE " ++ (Timeframe.ofToken t.timeframe).sizeText ++
          (Window.graceText (grace.map fun n => toString n ++ " SECONDS") ++ ")") :=
      String.append_assoc ..
    rw [hsql]
    refine sizeSeconds?_of_measures hsize hunit hbits (by decide) ?_
    cases grace with
    | none => rfl
    | some n =>
      change (", GRACE PERIOD " ++ _ ++ ")").toList.head?.any _
      rw [String.toList_append, String.toList_append]
      rfl
  · obtain ⟨unit, hunit, hsize, -⟩ := (Timeframe.ofToken t.timeframe).duration.measures_text
    rw [Timeframe.seconds_duration] at hsize
    have hsql : ({ t with hop := some advance }.window grace).sql =
        "WINDOW HOPPING " ++ "(SIZE " ++ (Timeframe.ofToken t.timeframe).duration.text ++
          (", ADVANCE BY " ++ (advance.text ++
            (Window.graceText ((grace.map Duration.ofSeconds).map Duration.text) ++ ")"))) := by
      rw [← String.append_assoc, ← String.append_assoc, ← String.append_assoc]
      rfl
    rw [hsql]
    exact sizeSeconds?_of_measures hsize (mem_cons_of_mem _ hunit) hbits (by decide) (by simp)

/-- A target over a timeframe. -/
def windowOver (timeframe : String) : WindowedTarget where
  name := "w"
  timeframe := timeframe

/-- Two months, in months if tumbling and in days if hopping, and a week. -/
theorem window_sizes_months_and_weeks :
    ((windowOver "2mo").window none).sql = "WINDOW TUMBLING (SIZE 2 MONTHS)" ∧
      sizeSeconds? "WINDOW TUMBLING (SIZE 2 MONTHS)" = some 5184000 ∧
      ({ windowOver "2mo" with hop := some (.ofSeconds 3600) }.window none).sql =
        "WINDOW HOPPING (SIZE 60 DAYS, ADVANCE BY 1 HOURS)" ∧
      sizeSeconds? "WINDOW HOPPING (SIZE 60 DAYS, ADVANCE BY 1 HOURS)" = some 5184000 ∧
      ((windowOver "1wk").window none).sql = "WINDOW TUMBLING (SIZE 7 DAYS)" ∧
      sizeSeconds? "WINDOW TUMBLING (SIZE 7 DAYS)" = some 604800 := by
  obtain ⟨htumbling, hhopping, -⟩ := window_sizes_agree (windowOver "2mo") none (.ofSeconds 3600)
  obtain ⟨hweek, -⟩ := window_sizes_agree (windowOver "1wk") none (.ofSeconds 3600)
  have hmonths : ({ windowOver "2mo" with hop := none }.window none).sql =
      "WINDOW TUMBLING (SIZE 2 MONTHS)" := by decide +kernel
  have hdays : ({ windowOver "2mo" with hop := some (.ofSeconds 3600) }.window none).sql =
      "WINDOW HOPPING (SIZE 60 DAYS, ADVANCE BY 1 HOURS)" := by decide +kernel
  have hweeks : ({ windowOver "1wk" with hop := none }.window none).sql =
      "WINDOW TUMBLING (SIZE 7 DAYS)" := by decide +kernel
  rw [hmonths] at htumbling
  rw [hdays] at hhopping
  rw [hweeks] at hweek
  exact ⟨hmonths, htumbling.trans (by decide), hdays, hhopping.trans (by decide), hweeks,
    hweek.trans (by decide)⟩

end StreamQuery
