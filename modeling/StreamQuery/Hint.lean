import StreamQuery.Text.Ascii

/-!
# Hints for misspelled names

The hint for an unknown name is the known name at the least edit distance, ignoring ASCII case. A
name at distance zero is passed over; of equally near names the smaller one is taken, so the hint
does not depend on the order of the candidates.
-/

namespace StreamQuery.Hint

/-- The bytes of a string in UTF-8. -/
def bytes (s : String) : List UInt8 :=
  s.toList.flatMap String.utf8EncodeChar

/-- The entries of a row of distances after its first entry `left`, from the row before it: the
least of one deletion, one insertion, and one substitution unless the bytes agree. -/
def rowAfter (a : UInt8) : (bs : List UInt8) → (left : Nat) → (above : List Nat) → List Nat
  | b :: bs, left, diagonal :: up :: above =>
    let entry := min (min (up + 1) (left + 1)) (diagonal + if a = b then 0 else 1)
    entry :: rowAfter a bs entry (up :: above)
  | _, _, _ => []

/-- The next row of distances: its first entry is one more than that of the row before it. -/
def nextRow (bs : List UInt8) (row : List Nat) (a : UInt8) : List Nat :=
  let first := row.headD 0 + 1
  first :: rowAfter a bs first row

/-- The edit distance of two byte strings, computed row by row. -/
def editDistance (as bs : List UInt8) : Nat :=
  (as.foldl (nextRow bs) (List.range (bs.length + 1))).getLastD 0

/-- The distance of two names ignoring ASCII case. -/
def distance (a b : String) : Nat :=
  editDistance (bytes (Text.lower a)) (bytes (Text.lower b))

/-- The better of two names with their distances: the nearer one, then the smaller one. -/
def better (best : Option (String × Nat)) (name : String) (d : Nat) : Option (String × Nat) :=
  match best with
  | none => some (name, d)
  | some (other, e) => if d < e || (d == e && name < other) then some (name, d) else some (other, e)

/-- The nearest candidate at a distance from one to `limit`. -/
def nearest? (input : String) (candidates : List String) (limit : Nat) : Option String :=
  (candidates.foldl (fun best name =>
    let d := distance input name
    if d == 0 || limit < d then best else better best name d) none).map (·.1)

/-- The greatest distance at which a name is hinted at. -/
def maxDistance : Nat := 2

end StreamQuery.Hint
