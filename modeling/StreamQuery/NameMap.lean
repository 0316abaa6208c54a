/-!
# Maps and sets of names

A `NameMap` keeps its entries strictly increasing in their names, by code points, and a `NameSet`
its members likewise. So a map has one representation: two maps with the same entries are equal,
however they were built, and every listing of them is in name order.
-/

namespace StreamQuery

universe u

variable {α : Type u}

/-- Of two different names, one is smaller. -/
theorem lt_of_not_lt_of_ne {a b : String} (h : ¬ a < b) (hne : a ≠ b) : b < a := by
  rcases Std.lt_trichotomy a b with hlt | heq | hgt
  · exact absurd hlt h
  · exact absurd heq hne
  · exact hgt

/-- A map from names, with its entries in name order. -/
structure NameMap (α : Type u) where
  entries : List (String × α)
  /-- No name occurs twice, and the names increase. -/
  sorted : entries.Pairwise fun a b => a.1 < b.1

namespace NameMap

/-- Puts an entry into an increasing list of entries, in place of one with the same name. -/
def insertEntry (name : String) (value : α) : List (String × α) → List (String × α)
  | [] => [(name, value)]
  | (other, old) :: rest =>
    if name < other then (name, value) :: (other, old) :: rest
    else if name = other then (name, value) :: rest
    else (other, old) :: insertEntry name value rest

/-- An inserted list holds the new entry and some of the old ones. -/
theorem mem_insertEntry {name : String} {value : α} {entries : List (String × α)}
    {entry : String × α} (h : entry ∈ insertEntry name value entries) :
    entry = (name, value) ∨ entry ∈ entries := by
  induction entries with
  | nil => simpa [insertEntry] using h
  | cons head rest ih =>
    obtain ⟨other, old⟩ := head
    simp only [insertEntry] at h
    split at h
    · simpa using h
    · split at h
      · rcases List.mem_cons.1 h with rfl | h
        · exact Or.inl rfl
        · exact Or.inr (List.mem_cons_of_mem _ h)
      · rcases List.mem_cons.1 h with rfl | h
        · exact Or.inr List.mem_cons_self
        · exact (ih h).imp_right (List.mem_cons_of_mem _)

/-- Insertion keeps the entries increasing. -/
theorem pairwise_insertEntry (name : String) (value : α) {entries : List (String × α)}
    (h : entries.Pairwise fun a b => a.1 < b.1) :
    (insertEntry name value entries).Pairwise fun a b => a.1 < b.1 := by
  induction entries with
  | nil => simp [insertEntry]
  | cons head rest ih =>
    obtain ⟨other, old⟩ := head
    obtain ⟨hhead, hrest⟩ := List.pairwise_cons.1 h
    simp only [insertEntry]
    split
    · rename_i hlt
      refine List.pairwise_cons.2 ⟨fun entry hmem => ?_, h⟩
      rcases List.mem_cons.1 hmem with rfl | hmem
      · exact hlt
      · exact String.lt_trans hlt (hhead entry hmem)
    · split
      · rename_i heq
        subst heq
        exact List.pairwise_cons.2 ⟨hhead, hrest⟩
      · rename_i hlt hne
        refine List.pairwise_cons.2 ⟨fun entry hmem => ?_, ih hrest⟩
        rcases mem_insertEntry hmem with rfl | hmem
        · exact lt_of_not_lt_of_ne hlt hne
        · exact hhead entry hmem

/-- The map without entries. -/
def empty : NameMap α where
  entries := []
  sorted := List.Pairwise.nil

instance : Inhabited (NameMap α) := ⟨empty⟩

/-- Adds an entry, or replaces the one with the same name. -/
def insert (name : String) (value : α) (m : NameMap α) : NameMap α where
  entries := insertEntry name value m.entries
  sorted := pairwise_insertEntry name value m.sorted

/-- The map of a list of entries; of two entries with one name the later counts. -/
def ofList (entries : List (String × α)) : NameMap α :=
  entries.foldl (fun m entry => m.insert entry.1 entry.2) empty

/-- Adds every entry of another map, which wins where both have a name. -/
def union (m other : NameMap α) : NameMap α :=
  other.entries.foldl (fun m entry => m.insert entry.1 entry.2) m

/-- The value under a name. -/
def get? (m : NameMap α) (name : String) : Option α :=
  (m.entries.find? fun entry => entry.1 == name).map (·.2)

/-- The first entry under a name after an insertion. -/
theorem find?_insertEntry (name : String) (value : α) (entries : List (String × α))
    (other : String) :
    ((insertEntry name value entries).find? fun entry => entry.1 == other).map (·.2) =
      if other = name then some value
      else (entries.find? fun entry => entry.1 == other).map (·.2) := by
  induction entries with
  | nil =>
    by_cases h : other = name
    · simp [insertEntry, h]
    · simp [insertEntry, h, Ne.symm h]
  | cons head rest ih =>
    obtain ⟨first, old⟩ := head
    simp only [insertEntry]
    split
    · by_cases h : other = name
      · simp [h]
      · simp [List.find?_cons, h, Ne.symm h]
    · split
      · rename_i heq
        subst heq
        by_cases h : other = name
        · simp [h]
        · simp [h, Ne.symm h]
      · rename_i hlt hne
        by_cases h : first = other
        · have hother : other ≠ name := fun heq => hne (heq.symm.trans h.symm)
          simp [h, hother]
        · simpa [List.find?_cons, h] using ih

/-- An inserted name has the new value, and every other name the one it had. -/
@[simp] theorem get?_insert (m : NameMap α) (name : String) (value : α) (other : String) :
    (m.insert name value).get? other = if other = name then some value else m.get? other :=
  find?_insertEntry name value m.entries other

/-- The empty map has no value under any name. -/
@[simp] theorem get?_empty (name : String) : (empty : NameMap α).get? name = none := rfl

/-- True when a name has an entry. -/
def contains (m : NameMap α) (name : String) : Bool :=
  (m.get? name).isSome

/-- The names, in increasing order. -/
def names (m : NameMap α) : List String :=
  m.entries.map (·.1)

/-- The number of entries. -/
def size (m : NameMap α) : Nat :=
  m.entries.length

/-- True when there is no entry. -/
def isEmpty (m : NameMap α) : Bool :=
  m.entries.isEmpty

/-- Maps with the same entries are equal. -/
@[ext] theorem ext {m other : NameMap α} (h : m.entries = other.entries) : m = other := by
  cases m
  cases other
  cases h
  rfl

instance [DecidableEq α] : DecidableEq (NameMap α) := fun m other =>
  if h : m.entries = other.entries then isTrue (ext h)
  else isFalse fun heq => h (congrArg entries heq)

end NameMap

/-- A set of names, in name order. -/
structure NameSet where
  members : List String
  /-- No name occurs twice, and the names increase. -/
  sorted : members.Pairwise (· < ·)

namespace NameSet

/-- Puts a name into an increasing list, unless it is there. -/
def insertMember (name : String) : List String → List String
  | [] => [name]
  | other :: rest =>
    if name < other then name :: other :: rest
    else if name = other then other :: rest
    else other :: insertMember name rest

/-- The members after an insertion are the new name and the old ones. -/
@[simp] theorem mem_insertMember {name member : String} {members : List String} :
    member ∈ insertMember name members ↔ member = name ∨ member ∈ members := by
  induction members with
  | nil => simp [insertMember]
  | cons other rest ih =>
    simp only [insertMember]
    split
    · simp
    · split
      · rename_i heq
        subst heq
        simp
      · simp only [List.mem_cons, ih]
        constructor
        · rintro (h | h | h)
          · exact Or.inr (Or.inl h)
          · exact Or.inl h
          · exact Or.inr (Or.inr h)
        · rintro (h | h | h)
          · exact Or.inr (Or.inl h)
          · exact Or.inl h
          · exact Or.inr (Or.inr h)

/-- Insertion keeps the members increasing. -/
theorem pairwise_insertMember (name : String) {members : List String}
    (h : members.Pairwise (· < ·)) : (insertMember name members).Pairwise (· < ·) := by
  induction members with
  | nil => simp [insertMember]
  | cons other rest ih =>
    obtain ⟨hhead, hrest⟩ := List.pairwise_cons.1 h
    simp only [insertMember]
    split
    · rename_i hlt
      refine List.pairwise_cons.2 ⟨fun member hmem => ?_, h⟩
      rcases List.mem_cons.1 hmem with rfl | hmem
      · exact hlt
      · exact String.lt_trans hlt (hhead member hmem)
    · split
      · exact h
      · rename_i hlt hne
        refine List.pairwise_cons.2 ⟨fun member hmem => ?_, ih hrest⟩
        rcases mem_insertMember.1 hmem with rfl | hmem
        · exact lt_of_not_lt_of_ne hlt hne
        · exact hhead member hmem

/-- The set without members. -/
def empty : NameSet where
  members := []
  sorted := List.Pairwise.nil

instance : Inhabited NameSet := ⟨empty⟩

/-- Adds a name. -/
def insert (name : String) (s : NameSet) : NameSet where
  members := insertMember name s.members
  sorted := pairwise_insertMember name s.sorted

/-- The set of the names of a list. -/
def ofList (names : List String) : NameSet :=
  names.foldl (fun s name => s.insert name) empty

/-- The members of either set. -/
def union (s other : NameSet) : NameSet :=
  other.members.foldl (fun s name => s.insert name) s

/-- True when a name is a member. -/
def contains (s : NameSet) (name : String) : Bool :=
  s.members.contains name

/-- The members after an insertion are the new name and the old ones. -/
@[simp] theorem contains_insert (s : NameSet) (name other : String) :
    (s.insert name).contains other = (other == name || s.contains other) := by
  rw [Bool.eq_iff_iff]
  simp [contains, insert]

/-- True when there is no member. -/
def isEmpty (s : NameSet) : Bool :=
  s.members.isEmpty

/-- Sets with the same members are equal. -/
@[ext] theorem ext {s other : NameSet} (h : s.members = other.members) : s = other := by
  cases s
  cases other
  cases h
  rfl

instance : DecidableEq NameSet := fun s other =>
  if h : s.members = other.members then isTrue (ext h)
  else isFalse fun heq => h (congrArg members heq)

end NameSet

end StreamQuery
