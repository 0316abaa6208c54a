import Mathlib.Data.List.Induction
import Mathlib.Order.Bounds.Defs
import Mathlib.Tactic.Common
import StreamQuery.Hint

/-!
# The edit distance is the least number of edits

The Levenshtein distance of two byte strings is the least number of edits that turn the first into
the second.  The distance is computed row by row instead: after the bytes `as`, entry `j` belongs to
the first `j` bytes of `bs`.  So one more byte of `bs` only adds an entry at the end of every row
(`row_concat`), and the last entries of four rows are tied by the recurrence on prefixes
(`editDistance_concat_concat`).

A list of edits is read off that recurrence, since each of its branches is one edit at the end of
the text (`editedIn_editDistance`).  And one edit changes the distance to any text by one at most
(`Edit.editDistance_le`), so no list of edits is shorter (`EditedIn.editDistance_le`).
-/

namespace StreamQuery.Hint

open List

/-! ## Edits -/

/-- One edit: a byte is inserted, deleted or exchanged. -/
inductive Edit : List UInt8 → List UInt8 → Prop
  | insert (before after : List UInt8) (b : UInt8) : Edit (before ++ after) (before ++ b :: after)
  | delete (before after : List UInt8) (a : UInt8) : Edit (before ++ a :: after) (before ++ after)
  | substitute (before after : List UInt8) (a b : UInt8) :
    Edit (before ++ a :: after) (before ++ b :: after)

/-- A number of edits turns the first text into the second. -/
inductive EditedIn : Nat → List UInt8 → List UInt8 → Prop
  | refl (as : List UInt8) : EditedIn 0 as as
  | step {n : Nat} {as bs cs : List UInt8} : Edit as bs → EditedIn n bs cs → EditedIn (n + 1) as cs

variable {as bs : List UInt8}

lemma Edit.concat (h : Edit as bs) (c : UInt8) : Edit (as ++ [c]) (bs ++ [c]) := by
  cases h with
  | insert before after b => simpa using insert before (after ++ [c]) b
  | delete before after a => simpa using delete before (after ++ [c]) a
  | substitute before after a b => simpa using substitute before (after ++ [c]) a b

lemma EditedIn.concat {n : Nat} (h : EditedIn n as bs) (c : UInt8) :
    EditedIn n (as ++ [c]) (bs ++ [c]) := by
  induction h with
  | refl as => exact .refl _
  | step hedit _ ih => exact .step (hedit.concat c) ih

/-! ## Rows -/

/-- The row of distances after all bytes of the first text. -/
def row (as bs : List UInt8) : List Nat :=
  as.foldl (nextRow bs) (range (bs.length + 1))

lemma row_concat_left (as bs : List UInt8) (a : UInt8) :
    row (as ++ [a]) bs = nextRow bs (row as bs) a :=
  foldl_append

lemma length_rowAfter (a : UInt8) (bs : List UInt8) (left : Nat) {above : List Nat}
    (h : above.length = bs.length + 1) : (rowAfter a bs left above).length = bs.length := by
  induction bs generalizing left above with
  | nil => rfl
  | cons b bs ih =>
    rcases above with _ | ⟨diagonal, _ | ⟨up, above⟩⟩
    · simp at h
    · simp at h
    · exact congrArg (· + 1) (ih _ (Nat.succ.inj h))

lemma length_row (as bs : List UInt8) : (row as bs).length = bs.length + 1 := by
  induction as using reverseRecOn with
  | nil => exact length_range
  | append_singleton as a ih =>
    rw [row_concat_left]
    exact congrArg (· + 1) (length_rowAfter a bs _ ih)

/-- The rest of a row grows at its end by the entry of the last byte. -/
lemma rowAfter_concat (a b : UInt8) (bs : List UInt8) (left up : Nat) {above : List Nat}
    (h : above.length = bs.length + 1) :
    rowAfter a (bs ++ [b]) left (above ++ [up]) = rowAfter a bs left above ++
      [min (min (up + 1) ((rowAfter a bs left above).getLastD left + 1))
        (above.getLastD 0 + if a = b then 0 else 1)] := by
  induction bs generalizing left above with
  | nil =>
    obtain ⟨diagonal, rfl⟩ := length_eq_one_iff.1 h
    rfl
  | cons c bs ih =>
    rcases above with _ | ⟨diagonal, _ | ⟨next, above⟩⟩
    · simp at h
    · simp at h
    · have hrest := ih (min (min (next + 1) (left + 1)) (diagonal + if a = c then 0 else 1))
        (Nat.succ.inj h)
      rw [getLastD_cons] at hrest
      simp only [cons_append, rowAfter, getLastD_cons] at hrest ⊢
      rw [hrest]

lemma nextRow_concat (a b : UInt8) (up : Nat) {row : List Nat} (h : row.length = bs.length + 1) :
    nextRow (bs ++ [b]) (row ++ [up]) a = nextRow bs row a ++
      [min (min (up + 1) ((nextRow bs row a).getLastD 0 + 1))
        (row.getLastD 0 + if a = b then 0 else 1)] := by
  rcases row with _ | ⟨first, rest⟩
  · simp at h
  · have hrest := rowAfter_concat a b bs (first + 1) up h
    simp only [cons_append, nextRow, headD_cons, getLastD_cons] at hrest ⊢
    rw [hrest]

/-- One more byte of the second text adds one entry to the row, its distance. -/
lemma row_concat (as bs : List UInt8) (b : UInt8) :
    row as (bs ++ [b]) = row as bs ++ [editDistance as (bs ++ [b])] := by
  suffices h : ∃ entry, row as (bs ++ [b]) = row as bs ++ [entry] by
    obtain ⟨entry, h⟩ := h
    have hlast : editDistance as (bs ++ [b]) = entry := by
      change (row as (bs ++ [b])).getLastD 0 = entry
      rw [h, getLastD_concat]
    rw [h, hlast]
  induction as using reverseRecOn with
  | nil =>
    refine ⟨bs.length + 1, ?_⟩
    change range _ = range _ ++ _
    rw [length_append, range_succ]
    rfl
  | append_singleton as a ih =>
    obtain ⟨entry, ih⟩ := ih
    rw [row_concat_left, row_concat_left, ih, nextRow_concat a b entry (length_row as bs)]
    exact ⟨_, rfl⟩

/-! ## The recurrence on prefixes -/

@[simp] lemma editDistance_nil_left (bs : List UInt8) : editDistance [] bs = bs.length := by
  change (range (bs.length + 1)).getLastD 0 = bs.length
  rw [range_succ, getLastD_concat]

@[simp] lemma editDistance_nil_right (as : List UInt8) : editDistance as [] = as.length := by
  have hrow : row as [] = [as.length] := by
    induction as using reverseRecOn with
    | nil => rfl
    | append_singleton as a ih =>
      rw [row_concat_left, ih, length_append]
      rfl
  change (row as []).getLastD 0 = as.length
  rw [hrow]
  rfl

/-- The last byte is deleted, or inserted, or exchanged unless it stays. -/
lemma editDistance_concat_concat (as bs : List UInt8) (a b : UInt8) :
    editDistance (as ++ [a]) (bs ++ [b]) =
      min (min (editDistance as (bs ++ [b]) + 1) (editDistance (as ++ [a]) bs + 1))
        (editDistance as bs + if a = b then 0 else 1) := by
  have hleft : editDistance (as ++ [a]) bs = (nextRow bs (row as bs) a).getLastD 0 :=
    congrArg (getLastD · 0) (row_concat_left as bs a)
  change (row (as ++ [a]) (bs ++ [b])).getLastD 0 = _
  rw [row_concat_left, row_concat, nextRow_concat a b _ (length_row as bs), getLastD_concat,
    ← hleft]
  rfl

/-! ## Each edit counts -/

lemma editDistance_le_concat (as bs : List UInt8) (b : UInt8) :
    editDistance as (bs ++ [b]) ≤ editDistance as bs + 1 := by
  induction as using reverseRecOn with
  | nil => simp
  | append_singleton as a _ =>
    rw [editDistance_concat_concat]
    omega

lemma editDistance_concat_le (as bs : List UInt8) (a : UInt8) :
    editDistance (as ++ [a]) bs ≤ editDistance as bs + 1 := by
  induction bs using reverseRecOn with
  | nil => simp
  | append_singleton bs b _ =>
    rw [editDistance_concat_concat]
    omega

lemma editDistance_le_of_concat (as bs : List UInt8) (a : UInt8) :
    editDistance as bs ≤ editDistance (as ++ [a]) bs + 1 := by
  induction bs using reverseRecOn with
  | nil => simp; omega
  | append_singleton bs b ih =>
    have hinsert := editDistance_le_concat as bs b
    rw [editDistance_concat_concat]
    omega

/-- Two texts stay within one edit of each other when the same byte is put behind both, or any two
bytes behind one text. -/
lemma editDistance_concat_le_concat {as as' : List UInt8} {a a' : UInt8}
    (h : ∀ cs, editDistance as cs ≤ editDistance as' cs + if a = a' then 1 else 0)
    (cs : List UInt8) : editDistance (as ++ [a]) cs ≤ editDistance (as' ++ [a']) cs + 1 := by
  induction cs using reverseRecOn with
  | nil =>
    have hnil := h []
    simp only [editDistance_nil_right, length_append, length_singleton] at hnil ⊢
    split at hnil
    · omega
    · omega
  | append_singleton cs c ih =>
    have hshort := h cs
    have hlong := h (cs ++ [c])
    rw [editDistance_concat_concat, editDistance_concat_concat]
    by_cases hbytes : a = a'
    · rw [if_pos hbytes] at hshort hlong
      rw [hbytes] at ih ⊢
      omega
    · rw [if_neg hbytes] at hshort hlong
      split
      · omega
      · omega

/-- One edit changes the distance to any text by one at most. -/
theorem Edit.editDistance_le (h : Edit as bs) (cs : List UInt8) :
    editDistance as cs ≤ editDistance bs cs + 1 := by
  -- the edit is at the end of the text, or the last byte stays
  have hcontext : ∀ (as bs after : List UInt8),
      (∀ cs, editDistance as cs ≤ editDistance bs cs + 1) →
      ∀ cs, editDistance (as ++ after) cs ≤ editDistance (bs ++ after) cs + 1 := by
    intro as bs after hedit
    induction after using reverseRecOn with
    | nil => simpa using hedit
    | append_singleton after c ih =>
      rw [← append_assoc, ← append_assoc]
      exact editDistance_concat_le_concat (by simpa using ih)
  cases h with
  | insert before after b =>
    rw [append_cons]
    exact hcontext _ _ after (fun cs => editDistance_le_of_concat before cs b) cs
  | delete before after a =>
    rw [append_cons]
    exact hcontext _ _ after (fun cs => editDistance_concat_le before cs a) cs
  | substitute before after a b =>
    rw [append_cons, append_cons before b]
    exact hcontext _ _ after
      (editDistance_concat_le_concat fun cs => Nat.le_add_right (editDistance before cs) _) cs

theorem EditedIn.editDistance_le {n : Nat} (h : EditedIn n as bs) : editDistance as bs ≤ n := by
  induction h with
  | refl as =>
    induction as using reverseRecOn with
    | nil => simp
    | append_singleton as a ih =>
      rw [editDistance_concat_concat, if_pos rfl]
      omega
  | @step n as bs cs hedit _ ih =>
    exact Nat.le_trans (hedit.editDistance_le cs) (Nat.succ_le_succ ih)

/-! ## The distance is reached -/

/-- Each branch of the recurrence is one edit at the end, or none. -/
theorem editedIn_editDistance (as bs : List UInt8) : EditedIn (editDistance as bs) as bs := by
  induction as using reverseRecOn generalizing bs with
  | nil =>
    induction bs using reverseRecOn with
    | nil => exact .refl []
    | append_singleton bs b ih =>
      have hfirst : Edit [] ([] ++ [b]) := .insert [] [] b
      have hedits := EditedIn.step hfirst (ih.concat b)
      simpa using hedits
  | append_singleton as a iha =>
    have hdelete : Edit (as ++ [a]) as := by simpa using Edit.delete as [] a
    induction bs using reverseRecOn with
    | nil =>
      have hedits := EditedIn.step hdelete (iha [])
      simpa using hedits
    | append_singleton bs b ihb =>
      have hrec := editDistance_concat_concat as bs a b
      obtain h | h | h : editDistance (as ++ [a]) (bs ++ [b]) = editDistance as (bs ++ [b]) + 1 ∨
          editDistance (as ++ [a]) (bs ++ [b]) = editDistance (as ++ [a]) bs + 1 ∨
          editDistance (as ++ [a]) (bs ++ [b]) = editDistance as bs + if a = b then 0 else 1 := by
        omega
      · rw [h]
        exact .step hdelete (iha _)
      · rw [h]
        exact .step (by simpa using Edit.insert (as ++ [a]) [] b) (ihb.concat b)
      · rw [h]
        split
        · next hbytes =>
          rw [hbytes]
          exact (iha bs).concat b
        · exact .step (Edit.substitute as [] a b) ((iha bs).concat b)

/-- The distance of two texts is reached by edits, and by no fewer. -/
theorem isLeast_editDistance (as bs : List UInt8) :
    IsLeast {n | EditedIn n as bs} (editDistance as bs) :=
  ⟨editedIn_editDistance as bs, fun _ h => h.editDistance_le⟩

/-- The edit distance of two byte strings is the least number of insertions, deletions and
substitutions of one byte that turn the first into the second, and it is given by the recursion on
prefixes. -/
theorem editDistance_levenshtein (as bs : List UInt8) :
    IsLeast {n | EditedIn n as bs} (editDistance as bs) ∧
      editDistance [] bs = bs.length ∧ editDistance as [] = as.length ∧
      ∀ a b, editDistance (as ++ [a]) (bs ++ [b]) =
        min (min (editDistance as (bs ++ [b]) + 1) (editDistance (as ++ [a]) bs + 1))
          (editDistance as bs + if a = b then 0 else 1) :=
  ⟨isLeast_editDistance as bs, editDistance_nil_left bs, editDistance_nil_right as,
    editDistance_concat_concat as bs⟩

end StreamQuery.Hint
