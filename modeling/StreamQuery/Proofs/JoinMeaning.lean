import Mathlib.Data.List.Chain
import StreamQuery.Proofs.JoinReading

/-!
# What join conditions mean

A join condition is given as a lambda over two rows and written as a text over the columns of two
sources.  This module gives both a value, for every meaning of literals, equality, conjunction and
negation and for every pair of rows.

The writer works on texts as the evaluation works on values, so the condition that it writes is the
value of the lambda in a meaning of its own, `JoinSql.meaning`, in which a negation is nothing and a
chain of members is its last member.  `JoinSql.maps_value` says that this is all that gets lost.  A
negation is not lost if it would have cancelled another one anyway (`Lambda.joinValue?_of_signs`).
-/

namespace StreamQuery

open List JoinSql

/-! ## Meanings -/

/-- The meaning of the parts of a condition over values of any kind, truth values among them. -/
structure JoinMeaning (V : Type) where
  literal : Literal → V
  equal : V → V → V
  all : List V → V
  all_one : ∀ v, all [v] = v
  not : V → V
  negate : V → V

/-- Two rows, each by the values at the end of its member paths. -/
def JoinRows (V : Type) : Type :=
  Side → List String → V

/-- A meaning that passes over negations. -/
def JoinMeaning.unnegated {V : Type} (m : JoinMeaning V) : JoinMeaning V :=
  { m with not := id, negate := id }

/-- Rows that know the last name of a member path only. -/
def JoinRows.cut {V : Type} (rows : JoinRows V) : JoinRows V :=
  fun side path => rows side [path.getLastD ""]

namespace JoinSql

variable {V : Type}

mutual

/-- The value of a condition. -/
def value (m : JoinMeaning V) (rows : JoinRows V) : JoinSql → V
  | .column side name => rows side [name]
  | .literal v => m.literal v
  | .equal a b => m.equal (a.value m rows) (b.value m rows)
  | .all a b rest => m.all (a.value m rows :: b.value m rows :: values m rows rest)
  | .nothing => m.all []

/-- The values of conditions. -/
def values (m : JoinMeaning V) (rows : JoinRows V) : List JoinSql → List V
  | [] => []
  | c :: rest => c.value m rows :: values m rows rest

end

lemma values_eq_map (m : JoinMeaning V) (rows : JoinRows V) (cs : List JoinSql) :
    values m rows cs = cs.map (value m rows) := by
  induction cs with
  | nil => rw [values]; rfl
  | cons c rest ih => rw [values, ih]; rfl

lemma value_conj (m : JoinMeaning V) (rows : JoinRows V) (cs : List JoinSql) :
    (conj cs).value m rows = m.all (cs.map (value m rows)) := by
  rcases cs with _ | ⟨a, _ | ⟨b, rest⟩⟩
  · simp [conj, value]
  · simp [conj, m.all_one]
  · simp [conj, value, values_eq_map]

/-- The meaning of the writer of conditions: it takes no notice of negations. -/
def meaning : JoinMeaning JoinSql where
  literal := .literal
  equal := .equal
  all := conj
  all_one _ := rfl
  not := id
  negate := id

/-- The writer's rows: a member path is a column named by its last member. -/
def rows : JoinRows JoinSql :=
  fun side path => .column side (path.getLastD "")

end JoinSql

/-! ## The values of lambdas -/

/-- The value of an expression: a single one, or those of a record's members. -/
inductive JoinValue (V : Type) where
  | scalar (v : V)
  | record (members : List V)

namespace JoinValue

variable {V W : Type}

/-- The single value. -/
def scalar? : JoinValue V → Option V
  | .scalar v => some v
  | .record _ => none

/-- Whether two values are equal, records member by member. -/
def same? (m : JoinMeaning V) : JoinValue V → JoinValue V → Option V
  | .scalar a, .scalar b => some (m.equal a b)
  | .record as, .record bs =>
    if as.length = bs.length then some (m.all (zipWith m.equal as bs)) else none
  | _, _ => none

/-- The value under a unary operator; a conversion keeps it. -/
def under? (m : JoinMeaning V) : UnaryOp → JoinValue V → Option (JoinValue V)
  | .convert, v => some v
  | .not, .scalar v => some (.scalar (m.not v))
  | .negate, .scalar v => some (.scalar (m.negate v))
  | _, .record _ => none

/-- Values one by one. -/
def map (f : V → W) : JoinValue V → JoinValue W
  | .scalar v => .scalar (f v)
  | .record vs => .record (vs.map f)

end JoinValue

/-- The side of a parameter, by its first position among the parameters. -/
def side? (params : List Param) (name : String) : Option Side :=
  match params.findIdx? fun p => p.name == name with
  | some 0 => some .left
  | some 1 => some .right
  | _ => none

lemma JoinSides.alias?_eq (s : JoinSides) (name : String) :
    s.alias? name = (side? s.params name).map (Side.pick s.left s.right) := by
  unfold alias? side?
  generalize s.params.findIdx? (fun p => p.name == name) = position
  rcases position with _ | _ | _ | n <;> rfl

section

variable {V : Type} (m : JoinMeaning V) (rows : JoinRows V) (params : List Param)

mutual

/-- The value of an expression over two rows, if it is made of member paths, literals, records,
equalities, conjunctions and unary operators. -/
def Expr.joinValue? : Expr → Option (JoinValue V)
  | .binary .equal left right =>
    (joinValue? left).bind fun l => (joinValue? right).bind fun r => (l.same? m r).map .scalar
  | .binary .and left right =>
    ((joinValue? left).bind JoinValue.scalar?).bind fun l =>
      ((joinValue? right).bind JoinValue.scalar?).map fun r => .scalar (m.all [l, r])
  | .member target name _ _ =>
    (target.root?.bind fun p => side? params p.name).bind fun side =>
      target.path?.map fun path => .scalar (rows side (path ++ [name]))
  | .unary op operand _ => (joinValue? operand).bind (JoinValue.under? m op)
  | .const value => value.literal?.map fun v => .scalar (m.literal v)
  | .record _ members => (joinValues? members).map .record
  | _ => none

/-- The values of the members of a record. -/
def Expr.joinValues? : List (String × Expr) → Option (List V)
  | [] => some []
  | (_, e) :: rest =>
    ((joinValue? e).bind JoinValue.scalar?).bind fun v => (joinValues? rest).map (v :: ·)

end

end

/-- The value of a condition over two rows. -/
def Lambda.joinValue? {V : Type} (on : Lambda) (m : JoinMeaning V) (rows : JoinRows V) : Option V :=
  (on.body.joinValue? m rows on.params).bind JoinValue.scalar?

/-! ## Maps between meanings -/

section

variable {V W : Type} {m : JoinMeaning V} {rows : JoinRows V} {m' : JoinMeaning W}
  {rows' : JoinRows W} {f : V → W}

/-- A map between values goes along with the meanings of all parts. -/
structure JoinMeaning.Maps (m : JoinMeaning V) (rows : JoinRows V) (m' : JoinMeaning W)
    (rows' : JoinRows W) (f : V → W) : Prop where
  literal : ∀ v, f (m.literal v) = m'.literal v
  equal : ∀ a b, f (m.equal a b) = m'.equal (f a) (f b)
  all : ∀ vs, f (m.all vs) = m'.all (vs.map f)
  not : ∀ v, f (m.not v) = m'.not (f v)
  negate : ∀ v, f (m.negate v) = m'.negate (f v)
  rows : ∀ side path, f (rows side path) = rows' side path

/-- Equal values are mapped to equal values, records member by member. -/
lemma JoinValue.same?_map (h : m.Maps rows m' rows' f) (a b : JoinValue V) :
    (a.map f).same? m' (b.map f) = (a.same? m b).map f := by
  cases a with
  | scalar a =>
    cases b with
    | scalar b => simp [map, same?, h.equal]
    | record bs => rfl
  | record as =>
    cases b with
    | scalar b => rfl
    | record bs =>
      by_cases hlength : as.length = bs.length
      · simp [map, same?, hlength, h.all, h.equal, zipWith_map, map_zipWith]
      · simp [map, same?, hlength]

/-- Unary operators go along with a map. -/
lemma JoinValue.under?_map (h : m.Maps rows m' rows' f) (op : UnaryOp) (v : JoinValue V) :
    (v.map f).under? m' op = (v.under? m op).map (map f) := by
  cases op <;> cases v <;> simp [map, under?, h.not, h.negate]

variable (params : List Param)

mutual

/-- The value of an expression goes along with a map. -/
lemma Expr.joinValue?_map (h : m.Maps rows m' rows' f) (e : Expr) :
    e.joinValue? m' rows' params = (e.joinValue? m rows params).map (JoinValue.map f) := by
  cases e with
  | binary op left right =>
    have hleft := joinValue?_map h left
    have hright := joinValue?_map h right
    cases op with
    | equal =>
      rw [joinValue?, joinValue?, hleft, hright]
      cases left.joinValue? m rows params with
      | none => rfl
      | some l =>
        cases right.joinValue? m rows params with
        | none => rfl
        | some r =>
          simp only [Option.map_some, Option.bind_some, JoinValue.same?_map h, Option.map_map]
          rfl
    | and =>
      rw [joinValue?, joinValue?, hleft, hright]
      rcases left.joinValue? m rows params with _ | l | ls
      · rfl
      · rcases right.joinValue? m rows params with _ | r | rs
        · rfl
        · simp [JoinValue.map, JoinValue.scalar?, h.all]
        · rfl
      · rfl
    | _ => simp [joinValue?]
  | member target name type isKey =>
    rw [joinValue?, joinValue?]
    cases target.root?.bind fun p => side? params p.name with
    | none => rfl
    | some side =>
      cases target.path? with
      | none => rfl
      | some path => simp [JoinValue.map, h.rows]
  | unary op operand type =>
    rw [joinValue?, joinValue?, joinValue?_map h operand]
    cases operand.joinValue? m rows params with
    | none => rfl
    | some v => exact JoinValue.under?_map h op v
  | const value =>
    rw [joinValue?, joinValue?, Option.map_map]
    cases value.literal? with
    | none => rfl
    | some v => simp [JoinValue.map, h.literal]
  | record typeName members =>
    rw [joinValue?, joinValue?, joinValues?_map h members]
    cases joinValues? m rows params members <;> rfl
  | _ => simp [joinValue?]

/-- The same for the members of a record. -/
lemma Expr.joinValues?_map (h : m.Maps rows m' rows' f) (members : List (String × Expr)) :
    joinValues? m' rows' params members = (joinValues? m rows params members).map (map f) := by
  cases members with
  | nil => simp [joinValues?]
  | cons member rest =>
    obtain ⟨name, e⟩ := member
    rw [joinValues?, joinValues?, joinValue?_map h e, joinValues?_map h rest]
    rcases e.joinValue? m rows params with _ | v | vs
    · rfl
    · cases joinValues? m rows params rest <;> rfl
    · rfl

end

/-- The value of a condition goes along with a map. -/
lemma Lambda.joinValue?_map (h : m.Maps rows m' rows' f) (on : Lambda) :
    on.joinValue? m' rows' = (on.joinValue? m rows).map f := by
  rw [Lambda.joinValue?, Lambda.joinValue?, Expr.joinValue?_map _ h]
  rcases on.body.joinValue? m rows on.params with _ | v | vs <;> rfl

/-- The writer's meaning maps to any other, but for negations and path fronts. -/
lemma JoinSql.maps_value (m : JoinMeaning V) (rows : JoinRows V) :
    meaning.Maps JoinSql.rows m.unnegated rows.cut (value m rows) where
  literal v := by rw [meaning, value]; rfl
  equal a b := by rw [meaning, value]; rfl
  all cs := value_conj m rows cs
  not _ := rfl
  negate _ := rfl
  rows side path := by rw [JoinSql.rows, value]; rfl

end

/-! ## Signs -/

section Signs

variable {V : Type} {m : JoinMeaning V}

/-- The meaning of a unary operator; a conversion keeps the value. -/
def JoinMeaning.sign (m : JoinMeaning V) : UnaryOp → V → V
  | .convert => id
  | .not => m.not
  | .negate => m.negate

/-- The laws of negation: a sign undoes itself, and the same sign on both sides keeps equality. -/
structure JoinMeaning.IsLawful (m : JoinMeaning V) : Prop where
  sign_sign : ∀ op v, m.sign op (m.sign op v) = v
  /-- The same sign on both sides. -/
  equal_sign : ∀ op v w, m.equal (m.sign op v) (m.sign op w) = m.equal v w

/-- Signs in front of a value, of which no two neighbours are the same. -/
def Signs : Type :=
  {signs : List UnaryOp // signs.IsChain (· ≠ ·)}

namespace Signs

/-- No sign. -/
def empty : Signs :=
  ⟨[], .nil⟩

lemma isChain_cons {op : UnaryOp} {s : Signs} (h : ¬ s.1.head? = some op) :
    (op :: s.1).IsChain (· ≠ ·) :=
  List.isChain_cons.2 ⟨fun _ hy hop => h (hop ▸ hy), s.2⟩

/-- One more sign, which cancels an equal one behind it. -/
def add (op : UnaryOp) (s : Signs) : Signs :=
  if h : s.1.head? = some op then ⟨s.1.tail, s.2.tail⟩ else ⟨op :: s.1, isChain_cons h⟩

/-- The value with the signs. -/
def act (m : JoinMeaning V) (s : Signs) (v : V) : V :=
  s.1.foldr m.sign v

lemma add_add (op : UnaryOp) (s : Signs) : (s.add op).add op = s := by
  obtain ⟨_ | ⟨first, rest⟩, hs⟩ := s <;> apply Subtype.ext
  · simp [add]
  · by_cases hop : first = op
    · subst hop
      have hrest : ¬ rest.head? = some first := fun h => (List.isChain_cons.1 hs).1 first h rfl
      simp [add, hrest]
    · simp [add, hop]

lemma act_add (h : m.IsLawful) (op : UnaryOp) (s : Signs) (v : V) :
    (s.add op).act m v = m.sign op (s.act m v) := by
  obtain ⟨_ | ⟨first, rest⟩, hs⟩ := s
  · simp [add, act]
  · by_cases hop : first = op
    · simp [add, act, hop, h.sign_sign]
    · simp [add, act, hop]

/-- Two values are equal exactly if they are with the same signs. -/
lemma equal_act (h : m.IsLawful) (s : Signs) (v w : V) :
    m.equal (s.act m v) (s.act m w) = m.equal v w := by
  unfold act
  induction s.1 with
  | nil => rfl
  | cons op rest ih => exact (h.equal_sign op _ _).trans ih

instance : DecidableEq Signs :=
  inferInstanceAs (DecidableEq {signs : List UnaryOp // signs.IsChain (· ≠ ·)})

/-- Conjunctions are of values without signs. -/
def all : List (Option Signs) → Option Signs
  | [v] => v
  | vs => if vs ≠ [] ∧ ∀ v ∈ vs, v = some empty then some empty else none

lemma all_eq_some {vs : List (Option Signs)} {s : Signs} (h : all vs = some s) :
    vs = [some s] ∨ vs ≠ [] ∧ (∀ v ∈ vs, v = some empty) ∧ s = empty := by
  unfold all at h
  split at h
  · exact .inl (by rw [h])
  · obtain ⟨⟨hne, hempty⟩, hs⟩ := Option.ite_none_right_eq_some.1 h
    exact .inr ⟨hne, hempty, (Option.some.inj hs).symm⟩

lemma all_of_empty {vs : List (Option Signs)} (hne : vs ≠ []) (h : ∀ v ∈ vs, v = some empty) :
    all vs = some empty := by
  unfold all
  split
  · exact h _ mem_cons_self
  · exact if_pos ⟨hne, h⟩

/-- The signs that are left in front of a value; none if signs are left within it, or if it is
empty. -/
def meaning : JoinMeaning (Option Signs) where
  literal _ := some empty
  equal a b := if a = b then a.map fun _ => empty else none
  all := all
  all_one _ := rfl
  not v := v.map (add .not)
  negate v := v.map (add .negate)

/-- Members of members have no meaning. -/
def rows : JoinRows (Option Signs) :=
  fun _ path => if path.length = 1 then some empty else none

lemma sign_meaning {op : UnaryOp} (h : op ≠ .convert) (v : Option Signs) :
    meaning.sign op v = v.map (add op) := by
  cases op <;> first | rfl | exact absurd rfl h

lemma isLawful_meaning : meaning.IsLawful := by
  have hsign : ∀ op v, meaning.sign op (meaning.sign op v) = v := by
    intro op v
    by_cases hop : op = .convert
    · subst hop
      rfl
    · rw [sign_meaning hop, sign_meaning hop, Option.map_map]
      cases v <;> simp [add_add]
  refine ⟨hsign, fun op v w => ?_⟩
  have hinj : meaning.sign op v = meaning.sign op w ↔ v = w :=
    ⟨fun h => by rw [← hsign op v, h, hsign], congrArg _⟩
  have hlost : (meaning.sign op v).map (fun _ => empty) = v.map fun _ => empty := by
    cases op <;> cases v <;> rfl
  simp only [meaning] at hinj hlost ⊢
  simp only [hinj, hlost]

/-- The signs left in front of a value, the value, and it without signs. -/
def Compared (m : JoinMeaning V) : Type :=
  {t : Option Signs × V × V // ∀ s, t.1 = some s → t.2.1 = s.act m t.2.2}

/-- All operations keep what compared values have in common. -/
lemma exists_compared (h : m.IsLawful) (rows : JoinRows V) :
    ∃ (c : JoinMeaning (Compared m)) (r : JoinRows (Compared m)),
      c.Maps r meaning Signs.rows (fun t => t.1.1) ∧ c.Maps r m rows (fun t => t.1.2.1) ∧
        c.Maps r m.unnegated rows.cut fun t => t.1.2.2 := by
  have hequal : ∀ a b : Compared m, ∀ s, meaning.equal a.1.1 b.1.1 = some s →
      m.equal a.1.2.1 b.1.2.1 = s.act m (m.equal a.1.2.2 b.1.2.2) := by
    intro a b s hs
    obtain ⟨hab, hs⟩ := Option.ite_none_right_eq_some.1 hs
    obtain ⟨signs, hsigns, rfl⟩ := Option.map_eq_some_iff.1 hs
    rw [a.2 signs hsigns, b.2 signs (hab ▸ hsigns), equal_act h]
    rfl
  have hall : ∀ ts : List (Compared m), ∀ s, all (ts.map fun t => t.1.1) = some s →
      m.all (ts.map fun t => t.1.2.1) = s.act m (m.all (ts.map fun t => t.1.2.2)) := by
    intro ts s hs
    obtain hone | ⟨-, hempty, rfl⟩ := all_eq_some hs
    · obtain ⟨t, rfl, ht⟩ := map_eq_singleton_iff.1 hone
      simp only [map_cons, map_nil, m.all_one]
      exact t.2 s ht
    · refine congrArg m.all (map_congr_left fun t ht => ?_)
      exact t.2 empty (hempty _ (mem_map_of_mem ht))
  have hsign : ∀ op, ∀ t : Compared m, ∀ s, t.1.1.map (add op) = some s →
      m.sign op t.1.2.1 = s.act m t.1.2.2 := by
    intro op t s hs
    obtain ⟨signs, hsigns, rfl⟩ := Option.map_eq_some_iff.1 hs
    rw [act_add h, t.2 signs hsigns]
  have hrows : ∀ side path, ∀ s, Signs.rows side path = some s →
      rows side path = s.act m (rows.cut side path) := by
    intro side path s hs
    obtain ⟨hlength, hs⟩ := Option.ite_none_right_eq_some.1 hs
    obtain ⟨name, rfl⟩ := length_eq_one_iff.1 hlength
    cases hs
    rfl
  let both : List (Compared m) → Compared m := fun ts =>
    ⟨(all (ts.map fun t => t.1.1), m.all (ts.map fun t => t.1.2.1),
      m.all (ts.map fun t => t.1.2.2)), hall ts⟩
  have hone : ∀ t, both [t] = t := fun t =>
    Subtype.ext (Prod.ext rfl (Prod.ext (m.all_one _) (m.all_one _)))
  let c : JoinMeaning (Compared m) :=
    { literal := fun v => ⟨(some empty, m.literal v, m.literal v), fun s hs => by cases hs; rfl⟩
      equal := fun a b => ⟨(_, _, _), hequal a b⟩
      all := both
      all_one := hone
      not := fun t => ⟨(_, _, _), hsign .not t⟩
      negate := fun t => ⟨(_, _, _), hsign .negate t⟩ }
  exact ⟨c, fun side path => ⟨(_, _, _), hrows side path⟩,
    ⟨fun _ => rfl, fun _ _ => rfl, fun _ => rfl, fun _ => rfl, fun _ => rfl, fun _ _ => rfl⟩,
    ⟨fun _ => rfl, fun _ _ => rfl, fun _ => rfl, fun _ => rfl, fun _ => rfl, fun _ _ => rfl⟩,
    ⟨fun _ => rfl, fun _ _ => rfl, fun _ => rfl, fun _ => rfl, fun _ => rfl, fun _ _ => rfl⟩⟩

end Signs

/-- If all signs of a condition cancel, its value is that without signs, in every lawful meaning. -/
lemma Lambda.joinValue?_of_signs (h : m.IsLawful) (rows : JoinRows V) {on : Lambda}
    (hon : on.joinValue? Signs.meaning Signs.rows = some (some .empty)) :
    on.joinValue? m rows = on.joinValue? m.unnegated rows.cut := by
  obtain ⟨c, r, hsigns, hvalue, hbare⟩ := Signs.exists_compared h rows
  rw [on.joinValue?_map hsigns] at hon
  rw [on.joinValue?_map hvalue, on.joinValue?_map hbare]
  cases ht : on.joinValue? c r with
  | none => rfl
  | some t =>
    rw [ht] at hon
    exact congrArg some (t.2 _ (Option.some.inj hon))

end Signs

end StreamQuery
