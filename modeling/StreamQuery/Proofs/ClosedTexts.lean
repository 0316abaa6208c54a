import Mathlib.Tactic.Common

/-!
# Lexically closed texts

A text is closed if its string literals end in it, and its parentheses pair up outside of them.
`isClosed` reads a text by the rules for literals, where a doubled mark stays inside.  A doubled
mark may as well close the literal and open it again; this is how a `Reading` goes
(`isClosed_iff_run`), and it can be cut at any place, also between two marks.
-/

namespace StreamQuery.Text

/-! ## Reading a text from left to right -/

mutual

/-- True when a text closes `depth` parentheses and its own, and its literals end. -/
def closesFrom (depth : Nat) : List Char → Bool
  | [] => depth == 0
  | c :: rest =>
    if c == '\'' then literalFrom depth rest
    else if c == '(' then closesFrom (depth + 1) rest
    else if c == ')' then depth != 0 && closesFrom (depth - 1) rest
    else closesFrom depth rest

/-- The same for a text that starts inside a literal. -/
def literalFrom (depth : Nat) : List Char → Bool
  | [] => false
  | '\'' :: '\'' :: rest => literalFrom depth rest
  | c :: rest => if c == '\'' then closesFrom depth rest else literalFrom depth rest

end

/-- True when literals end, and parentheses outside of them pair up. -/
def isClosed (s : List Char) : Bool :=
  closesFrom 0 s

/-! ## Readings -/

/-- How far a text has been read. -/
structure Reading where
  quoted : Bool
  depth : Nat
deriving DecidableEq

namespace Reading

/-- The reading after a character; none if it closes what is not open. -/
def step (r : Reading) (c : Char) : Option Reading :=
  if c == '\'' then some { r with quoted := !r.quoted }
  else if r.quoted then some r
  else if c == '(' then some { r with depth := r.depth + 1 }
  else if c == ')' then (if r.depth == 0 then none else some { r with depth := r.depth - 1 })
  else some r

/-- The reading after a text. -/
def run (r : Reading) (s : List Char) : Option Reading :=
  s.foldlM step r

/-- The reading at the start of a text, and at the end of a closed one. -/
def start : Reading := ⟨false, 0⟩

variable (r : Reading) {c : Char}

@[simp] lemma run_nil : r.run [] = some r := rfl

lemma run_cons (c : Char) (s : List Char) :
    r.run (c :: s) = (r.step c).bind fun next => next.run s := rfl

lemma step_inside (hmark : c ≠ '\'') (depth : Nat) : step ⟨true, depth⟩ c = some ⟨true, depth⟩ := by
  simp [step, hmark]

lemma step_other (hmark : c ≠ '\'') (hopen : c ≠ '(') (hclose : c ≠ ')') (r : Reading) :
    r.step c = some r := by
  simp [step, hmark, hopen, hclose]

lemma run_append (s t : List Char) : r.run (s ++ t) = (r.run s).bind fun next => next.run t :=
  List.foldlM_append

lemma step_deeper {r r' : Reading} (h : r.step c = some r') (k : Nat) :
    step ⟨r.quoted, r.depth + k⟩ c = some ⟨r'.quoted, r'.depth + k⟩ := by
  unfold step at h ⊢
  split_ifs at h ⊢ with hmark hquoted hopen hclose hzero hdeep
  all_goals grind

lemma run_deeper {r r' : Reading} {s : List Char} (h : r.run s = some r') (k : Nat) :
    run ⟨r.quoted, r.depth + k⟩ s = some ⟨r'.quoted, r'.depth + k⟩ := by
  induction s generalizing r with
  | nil =>
    rw [run_nil] at h
    rw [run_nil, Option.some.inj h]
  | cons c s ih =>
    rw [run_cons] at h ⊢
    obtain ⟨next, hnext, hrest⟩ := Option.bind_eq_some_iff.1 h
    rw [step_deeper hnext k]
    exact ih hrest

end Reading

lemma literalFrom_inside {c : Char} (hmark : c ≠ '\'') (depth : Nat) (rest : List Char) :
    literalFrom depth (c :: rest) = literalFrom depth rest := by
  rw [literalFrom]
  · simp [hmark]
  · intro more hc
    exact absurd hc hmark

lemma literalFrom_mark (depth : Nat) {rest : List Char} (hlone : rest.head? ≠ some '\'') :
    literalFrom depth ('\'' :: rest) = closesFrom depth rest := by
  rw [literalFrom]
  · simp
  · rintro more - rfl
    exact hlone rfl

mutual

/-- Reading by the rules for literals, outside of them. -/
theorem closesFrom_iff_run (depth : Nat) (s : List Char) :
    closesFrom depth s ↔ Reading.run ⟨false, depth⟩ s = some .start := by
  match s with
  | [] => simp [closesFrom, Reading.start]
  | c :: rest =>
    rw [closesFrom, Reading.run_cons]
    by_cases hmark : c = '\''
    · subst hmark
      exact literalFrom_iff_run depth rest
    by_cases hopen : c = '('
    · subst hopen
      exact closesFrom_iff_run (depth + 1) rest
    by_cases hclose : c = ')'
    · subst hclose
      match depth with
      | 0 => exact iff_of_false (by simp) (by rintro ⟨⟩)
      | depth + 1 => exact closesFrom_iff_run depth rest
    · rw [Reading.step_other hmark hopen hclose]
      simp only [beq_iff_eq, hmark, hopen, hclose, if_false]
      exact closesFrom_iff_run depth rest

/-- Reading by the rules for literals, inside of one. -/
theorem literalFrom_iff_run (depth : Nat) (s : List Char) :
    literalFrom depth s ↔ Reading.run ⟨true, depth⟩ s = some .start := by
  match s with
  | [] => simp [literalFrom, Reading.start]
  | c :: rest =>
    by_cases hmark : c = '\''
    · subst hmark
      by_cases hdouble : rest.head? = some '\''
      · -- to close the literal and open it again leads to the same reading
        match rest, hdouble with
        | _ :: more, rfl =>
          rw [literalFrom]
          exact literalFrom_iff_run depth more
      · rw [literalFrom_mark depth hdouble]
        exact closesFrom_iff_run depth rest
    · rw [literalFrom_inside hmark, Reading.run_cons, Reading.step_inside hmark]
      exact literalFrom_iff_run depth rest

end

/-- A text is closed exactly if its reading ends as it started. -/
lemma isClosed_iff_run {s : List Char} : isClosed s ↔ Reading.run .start s = some .start :=
  closesFrom_iff_run 0 s

lemma run_closed {s : List Char} (h : isClosed s) {r : Reading} (hr : r.quoted = false) :
    r.run s = some r := by
  have hrun := Reading.run_deeper (isClosed_iff_run.1 h) r.depth
  obtain ⟨quoted, depth⟩ := r
  obtain rfl : quoted = false := hr
  simpa [Reading.start] using hrun

end StreamQuery.Text
