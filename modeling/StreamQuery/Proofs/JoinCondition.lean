import StreamQuery.Proofs.JoinMeaning

/-!
# The text of a join condition

The text of a join condition is read as a condition again, and this module says when that condition
means the same as the lambda (`joinCondition_value_iff`).  The writer passes over negations, and of
a chain of members it takes the last one.
-/

namespace StreamQuery

open List JoinSql

variable {s : JoinSides} {p q : Prop} {t : String} {e : Expr}

/-! ## Nodes -/

namespace Expr

/-- True when all nodes of the tree satisfy `p`. -/
def allNodes (p : Expr → Bool) (e : Expr) : Bool :=
  e.nodes.all p

/-- All nodes of a member access. -/
lemma allNodes_member (p : Expr → Bool) (target : Expr) (name : String) (type : DataType)
    (isKey : Bool) : allNodes p (.member target name type isKey) =
      (p (.member target name type isKey) && target.allNodes p) := by
  simp [allNodes, nodes]

lemma allNodes_const (p : Expr → Bool) (value : Constant) :
    allNodes p (.const value) = p (.const value) := by
  simp [allNodes, nodes]

/-- All nodes of a unary operation. -/
lemma allNodes_unary (p : Expr → Bool) (op : UnaryOp) (operand : Expr) (type : DataType) :
    allNodes p (.unary op operand type) = (p (.unary op operand type) && operand.allNodes p) := by
  simp [allNodes, nodes]

/-- All nodes of a binary operation. -/
lemma allNodes_binary (p : Expr → Bool) (op : BinaryOp) (left right : Expr) :
    allNodes p (.binary op left right) =
      (p (.binary op left right) && (left.allNodes p && right.allNodes p)) := by
  simp [allNodes, nodes]

/-- All nodes of a record. -/
lemma allNodes_record (p : Expr → Bool) (typeName : Option String)
    (members : List (String × Expr)) :
    allNodes p (.record typeName members) =
      (p (.record typeName members) && members.all fun x => x.2.allNodes p) := by
  have hmembers : ∀ members : List (String × Expr),
      (nodesOfMembers members).all p = members.all fun x => x.2.allNodes p := by
    intro members
    induction members with
    | nil => simp [nodesOfMembers]
    | cons x rest ih => simp [nodesOfMembers, ih, allNodes]
  simp [allNodes, nodes, hmembers]

/-- True unless the node is a member whose name cannot stand in a text. -/
def isNamed : Expr → Bool
  | .member _ name _ _ => isName name
  | _ => true

/-- True unless the node is a constant that is no literal. -/
def isLiteral : Expr → Bool
  | .const value => value.literal?.isSome
  | _ => true

/-- True unless the node is a record without members. -/
def isFilled : Expr → Bool
  | .record _ members => !members.isEmpty
  | _ => true

/-- True unless the writer passes over a negation or a member of a member. -/
def isKept : Expr → Bool
  | .unary op _ _ => op == .convert
  | .member target _ _ _ =>
    match target with
    | .param _ => true
    | _ => false
  | _ => true

end Expr

/-! ## What is written -/

/-- Records that are compared have as many members, compared one by one. -/
lemma compositeText_ok {write : String → String → String} {left right : List (Except Fault String)}
    {text : String} (h : compositeText write left right = .ok text) :
    ∃ ls rs, left = ls.map .ok ∧ right = rs.map .ok ∧ ls.length = rs.length ∧
      text = conjText (zipWith write ls rs) := by
  have hpairs : ∀ (left right : List (Except Fault String)) (pairs : List String),
      left.length = right.length →
      ((left.zip right).mapM fun p => do return write (← p.1) (← p.2)) = .ok pairs →
      ∃ ls rs, left = ls.map .ok ∧ right = rs.map .ok ∧ ls.length = rs.length ∧
        pairs = zipWith write ls rs := by
    intro left
    induction left with
    | nil =>
      intro right pairs hlength hmap
      obtain rfl : right = [] := eq_nil_of_length_eq_zero hlength.symm
      cases hmap
      exact ⟨[], [], rfl, rfl, rfl, rfl⟩
    | cons l left ih =>
      intro right pairs hlength hmap
      obtain _ | ⟨r, right⟩ := right
      · cases hlength
      rw [zip_cons_cons, mapM_cons] at hmap
      obtain ⟨text, htext, hmap⟩ := ok_of_bind hmap
      obtain ⟨rest, hrest, hmap⟩ := ok_of_bind hmap
      obtain ⟨l, rfl, htext⟩ := ok_of_bind htext
      obtain ⟨r, rfl, htext⟩ := ok_of_bind htext
      cases htext
      cases hmap
      obtain ⟨ls, rs, rfl, rfl, hsize, rfl⟩ := ih right rest (Nat.succ.inj hlength) hrest
      exact ⟨l :: ls, r :: rs, rfl, rfl, congrArg (· + 1) hsize, rfl⟩
  unfold compositeText at h
  by_cases hlength : left.length = right.length
  · simp only [hlength, bne_self_eq_false, Bool.false_eq_true, if_false] at h
    obtain ⟨pairs, hmap, h⟩ := ok_of_bind h
    obtain ⟨ls, rs, hls, hrs, hsize, rfl⟩ := hpairs left right pairs hlength hmap
    refine ⟨ls, rs, hls, hrs, hsize, ?_⟩
    generalize zipWith write ls rs = pairs at h
    rcases pairs with _ | ⟨a, _ | ⟨b, more⟩⟩ <;> cases h <;> rfl
  · simp only [bne_iff_ne.2 hlength, if_true] at h
    cases h

namespace JoinSql

variable (cs : List JoinSql)

lemma allHaveNames_eq : allHaveNames cs = cs.all hasNames := by
  induction cs with
  | nil => simp [allHaveNames]
  | cons c rest ih => simp [allHaveNames, ih]

lemma allReadable_eq : allReadable cs = cs.all isReadable := by
  induction cs with
  | nil => simp [allReadable]
  | cons c rest ih => simp [allReadable, ih]

lemma hasNames_conj : (conj cs).hasNames = cs.all hasNames := by
  rcases cs with _ | ⟨a, _ | ⟨b, rest⟩⟩
  · simp [conj, hasNames]
  · simp [conj]
  · simp [conj, hasNames, allHaveNames_eq, Bool.and_assoc]

lemma isReadable_conj : (conj cs).isReadable = (!cs.isEmpty && cs.all isReadable) := by
  rcases cs with _ | ⟨a, _ | ⟨b, rest⟩⟩
  · simp [conj, isReadable]
  · simp [conj]
  · simp [conj, isReadable, allReadable_eq, Bool.and_assoc]

/-- What equalities inherit holds for equalities made one by one. -/
lemma all_zipWith_equal {p : JoinSql → Bool} (hp : ∀ a b, p a → p b → p (.equal a b))
    {as bs : List JoinSql} (has : as.all p) (hbs : bs.all p) : (zipWith equal as bs).all p := by
  induction as generalizing bs with
  | nil => rfl
  | cons a as ih =>
    cases bs with
    | nil => rfl
    | cons b bs =>
      simp only [all_cons, Bool.and_eq_true] at has hbs
      simp only [zipWith_cons_cons, all_cons, Bool.and_eq_true]
      exact ⟨hp a b has.1 hbs.1, ih has.2 hbs.2⟩

end JoinSql

/-- The text of a condition with names, which is readable if `filled` holds. -/
structure IsWritten (s : JoinSides) (filled : Prop) (text : String) (c : JoinSql) : Prop where
  text_eq : text = c.text s.left s.right
  names : c.hasNames = true
  readable : filled → c.isReadable = true

/-- Texts are those of conditions, one by one. -/
structure AreWritten (s : JoinSides) (filled : Prop) (texts : List String) (cs : List JoinSql) :
    Prop where
  texts_eq : texts = cs.map (text s.left s.right)
  names : cs.all hasNames = true
  readable : filled → cs.all isReadable = true

lemma IsWritten.equal {u : String} {a b : JoinSql} (ha : IsWritten s p t a)
    (hb : IsWritten s q u b) : IsWritten s (p ∧ q) (equalText t u) (.equal a b) := by
  refine ⟨?_, ?_, fun h => ?_⟩
  · rw [ha.text_eq, hb.text_eq, text]
  · simp [hasNames, ha.names, hb.names]
  · simp [isReadable, ha.readable h.1, hb.readable h.2]

/-- Two texts joined by AND in brackets are the text of both conditions. -/
lemma IsWritten.both {u : String} {a b : JoinSql} (ha : IsWritten s p t a)
    (hb : IsWritten s q u b) :
    IsWritten s (p ∧ q) ("(" ++ t ++ " AND " ++ u ++ ")") (conj [a, b]) := by
  refine ⟨?_, ?_, fun h => ?_⟩
  · rw [ha.text_eq, hb.text_eq, text_conj]
    simp [conjText, Text.joined, String.append_assoc]
  · simp [hasNames_conj, ha.names, hb.names]
  · simp [isReadable_conj, ha.readable h.1, hb.readable h.2]

/-- Records that are compared are written as equalities of their members. -/
lemma AreWritten.composite {ts us : List String} {as bs : List JoinSql} (has : AreWritten s p ts as)
    (hbs : AreWritten s q us bs) (hne : p → as ≠ []) (hlength : as.length = bs.length) :
    IsWritten s (p ∧ q) (conjText (zipWith equalText ts us))
      (conj (zipWith equal as bs)) := by
  have htexts : zipWith equalText ts us =
      (zipWith equal as bs).map (text s.left s.right) := by
    rw [has.texts_eq, hbs.texts_eq, zipWith_map, map_zipWith]
    simp [text]
  refine ⟨?_, ?_, fun h => ?_⟩
  · rw [text_conj, htexts]
  · rw [hasNames_conj]
    exact all_zipWith_equal (by simp +contextual [hasNames]) has.names hbs.names
  · have hnil : zipWith equal as bs ≠ [] := by
      rw [Ne, zipWith_eq_nil_iff, not_or]
      refine ⟨hne h.1, fun hbs => hne h.1 ?_⟩
      rwa [hbs, length_nil, length_eq_zero_iff] at hlength
    rw [isReadable_conj, Bool.and_eq_true]
    refine ⟨by simpa using hnil, ?_⟩
    exact all_zipWith_equal (by simp +contextual [isReadable]) (has.readable h.1)
      (hbs.readable h.2)

lemma IsWritten.mono {c : JoinSql} (h : IsWritten s p t c) (hpq : q → p) : IsWritten s q t c :=
  ⟨h.text_eq, h.names, fun hq => h.readable (hpq hq)⟩

lemma Expr.path?_of_root? {p : Param} (h : e.root? = some p) : ∃ path, e.path? = some path := by
  induction e using root?.induct with
  | case1 q => exact ⟨[], rfl⟩
  | case2 target name type isKey ih =>
    obtain ⟨path, hpath⟩ := ih h
    exact ⟨path ++ [name], by rw [path?, hpath, Option.map_some]⟩
  | case3 e hparam hmember =>
    rw [root?] at h
    · cases h
    · exact hparam
    · exact hmember

section

variable (s : JoinSides)

/-- The text of a member is that of its column in the meaning of the writer. -/
lemma Expr.joinText_member_ok {target : Expr} {name : String} {type : DataType} {isKey : Bool}
    {t : String} (htext : (member target name type isKey).joinText s = .ok t)
    (hname : isName name) :
    ∃ c, (member target name type isKey).joinValue? meaning rows s.params =
        some (.scalar c) ∧ IsWritten s True t c := by
  rw [joinText] at htext
  cases hroot : target.root? with
  | none =>
    rw [hroot] at htext
    cases htext
  | some p =>
    obtain ⟨path, hpath⟩ := path?_of_root? hroot
    rw [hroot, Option.bind_some, s.alias?_eq] at htext
    cases hside : side? s.params p.name with
    | none =>
      rw [hside] at htext
      cases htext
    | some side =>
      rw [hside] at htext
      cases htext
      refine ⟨.column side name, ?_, ?_, ?_, fun _ => ?_⟩
      · rw [joinValue?, hroot, Option.bind_some, hside, Option.bind_some, hpath,
          Option.map_some]
        simp [rows]
      · rw [text]
      · simpa [hasNames] using hname
      · simp [isReadable]

mutual

/-- A text is that of the expression's value in the meaning of the writer. -/
lemma Expr.joinText_ok (e : Expr) {t : String} (htext : e.joinText s = .ok t)
    (hnames : e.allNodes isNamed) (hliterals : e.allNodes isLiteral) :
    ∃ c, e.joinValue? meaning rows s.params = some (.scalar c) ∧
      IsWritten s (e.allNodes isFilled) t c := by
  cases e with
  | binary op left right =>
    simp only [allNodes_binary, Bool.and_eq_true] at hnames hliterals
    have hfilled : allNodes isFilled (.binary op left right) →
        left.allNodes isFilled ∧ right.allNodes isFilled := by
      intro h
      rw [allNodes_binary, Bool.and_eq_true, Bool.and_eq_true] at h
      exact h.2
    -- both operands have texts
    have hboth : ∀ {f : String → String → String},
        (do return f (← left.joinText s) (← right.joinText s)) = Except.ok t → ∃ u v,
          (∃ a, left.joinValue? meaning rows s.params = some (.scalar a) ∧
            IsWritten s (left.allNodes isFilled) u a) ∧
          (∃ b, right.joinValue? meaning rows s.params = some (.scalar b) ∧
            IsWritten s (right.allNodes isFilled) v b) ∧ f u v = t := by
      intro f h
      obtain ⟨u, hleft, h⟩ := ok_of_bind h
      obtain ⟨v, hright, h⟩ := ok_of_bind h
      exact ⟨u, v, joinText_ok left hleft hnames.2.1 hliterals.2.1,
        joinText_ok right hright hnames.2.2 hliterals.2.2, Except.ok.inj h⟩
    cases op with
    | equal =>
      rw [joinText] at htext
      split at htext
      · -- two records
        next ls rs hls hrs =>
        obtain ⟨ts, us, rfl, rfl, hlength, rfl⟩ := compositeText_ok htext
        obtain ⟨as, hleft, has, hne⟩ := joinMembers?_ok left hls hnames.2.1 hliterals.2.1
        obtain ⟨bs, hright, hbs, -⟩ := joinMembers?_ok right hrs hnames.2.2 hliterals.2.2
        have hsize : as.length = bs.length := by
          simpa [has.texts_eq, hbs.texts_eq] using hlength
        refine ⟨_, ?_, (has.composite hbs hne hsize).mono hfilled⟩
        rw [joinValue?, hleft, hright]
        simp [JoinValue.same?, hsize, meaning]
      · -- two single values
        obtain ⟨t, u, ⟨a, ha, hwa⟩, ⟨b, hb, hwb⟩, rfl⟩ := hboth htext
        refine ⟨.equal a b, ?_, (hwa.equal hwb).mono hfilled⟩
        rw [joinValue?, ha, hb]
        rfl
    | and =>
      rw [joinText] at htext
      obtain ⟨t, u, ⟨a, ha, hwa⟩, ⟨b, hb, hwb⟩, rfl⟩ := hboth htext
      refine ⟨conj [a, b], ?_, (hwa.both hwb).mono hfilled⟩
      rw [joinValue?, ha, hb]
      rfl
    | _ => simp [joinText] at htext
  | member target name type isKey =>
    rw [allNodes_member, Bool.and_eq_true] at hnames
    obtain ⟨c, hc, hw⟩ := joinText_member_ok s htext hnames.1
    exact ⟨c, hc, hw.mono fun _ => trivial⟩
  | unary op operand type =>
    simp only [allNodes_unary, Bool.and_eq_true] at hnames hliterals
    rw [joinText] at htext
    obtain ⟨c, hc, hw⟩ := joinText_ok operand htext hnames.2 hliterals.2
    refine ⟨c, ?_, hw.mono fun h => ?_⟩
    · rw [joinValue?, hc]
      cases op <;> rfl
    · rw [allNodes_unary, Bool.and_eq_true] at h
      exact h.2
  | const value =>
    rw [allNodes_const] at hliterals
    obtain ⟨v, hv⟩ := Option.isSome_iff_exists.1 hliterals
    rw [joinText] at htext
    cases htext
    refine ⟨.literal v, ?_, ?_, ?_, fun _ => ?_⟩
    · rw [joinValue?, hv]
      rfl
    · rw [text, Constant.sql_of_literal? hv]
    · simp [hasNames]
    · simp [isReadable]
  | _ => simp [joinText] at htext

/-- The texts of members are those of their values for the writer. -/
lemma Expr.joinMembers?_ok (e : Expr) {ts : List String}
    (htexts : e.joinMembers? s = some (ts.map .ok)) (hnames : e.allNodes isNamed)
    (hliterals : e.allNodes isLiteral) :
    ∃ cs, e.joinValue? meaning rows s.params = some (.record cs) ∧
      AreWritten s (e.allNodes isFilled) ts cs ∧
      (e.allNodes isFilled → cs ≠ []) := by
  cases e with
  | record typeName members =>
    simp only [allNodes_record, Bool.and_eq_true] at hnames hliterals
    rw [joinMembers?, Option.some.injEq] at htexts
    obtain ⟨cs, hcs, hw, hlength⟩ := joinTexts_ok members htexts hnames.2 hliterals.2
    refine ⟨cs, ?_, ⟨hw.texts_eq, hw.names, fun h => ?_⟩, fun h => ?_⟩
    · rw [joinValue?, hcs, Option.map_some]
    · rw [allNodes_record, Bool.and_eq_true] at h
      exact hw.readable h.2
    · rw [allNodes_record, Bool.and_eq_true] at h
      have hmembers : members ≠ [] := by simpa [isFilled] using h.1
      rintro rfl
      exact hmembers (eq_nil_of_length_eq_zero hlength.symm)
  | unary op operand type =>
    simp only [allNodes_unary, Bool.and_eq_true] at hnames hliterals
    cases op with
    | convert =>
      rw [joinMembers?] at htexts
      obtain ⟨cs, hcs, hw, hne⟩ := joinMembers?_ok operand htexts hnames.2 hliterals.2
      have hfilled : allNodes isFilled (.unary .convert operand type) →
          operand.allNodes isFilled := by
        intro h
        rw [allNodes_unary, Bool.and_eq_true] at h
        exact h.2
      refine ⟨cs, ?_, ⟨hw.texts_eq, hw.names, fun h => hw.readable (hfilled h)⟩,
        fun h => hne (hfilled h)⟩
      rw [joinValue?, hcs]
      rfl
    | _ => simp [joinMembers?] at htexts
  | _ => simp [joinMembers?] at htexts

/-- The same for the members of a record. -/
lemma Expr.joinTexts_ok (members : List (String × Expr)) {ts : List String}
    (htexts : joinTexts s members = ts.map .ok)
    (hnames : members.all (fun x => x.2.allNodes isNamed))
    (hliterals : members.all (fun x => x.2.allNodes isLiteral)) :
    ∃ cs, joinValues? meaning rows s.params members = some cs ∧
      AreWritten s (members.all (fun x => x.2.allNodes isFilled)) ts cs ∧
      cs.length = members.length := by
  cases members with
  | nil =>
    rw [joinTexts] at htexts
    obtain rfl : ts = [] := map_eq_nil_iff.1 htexts.symm
    exact ⟨[], by rw [joinValues?], ⟨rfl, rfl, fun _ => rfl⟩, rfl⟩
  | cons member rest =>
    obtain ⟨name, e⟩ := member
    simp only [all_cons, Bool.and_eq_true] at hnames hliterals
    rw [joinTexts] at htexts
    obtain ⟨t, us, rfl, ht, hus⟩ := map_eq_cons_iff.1 htexts.symm
    obtain ⟨c, hc, hw⟩ := joinText_ok e ht.symm hnames.1 hliterals.1
    obtain ⟨cs, hcs, hws, hlength⟩ := joinTexts_ok rest hus.symm hnames.2 hliterals.2
    refine ⟨c :: cs, ?_, ⟨?_, ?_, fun h => ?_⟩, congrArg (· + 1) hlength⟩
    · rw [joinValues?, hc, hcs]
      rfl
    · rw [hw.text_eq, hws.texts_eq, map_cons]
    · simp [hw.names, hws.names]
    · rw [all_cons, Bool.and_eq_true] at h
      simp [hw.readable h.1, hws.readable h.2]

end

end

/-! ## What is kept -/

section

variable {V : Type} (m : JoinMeaning V) (rows : JoinRows V) (params : List Param)

mutual

/-- If all is kept, negations and the fronts of paths do not matter. -/
lemma Expr.joinValue?_of_isKept (e : Expr) (hkept : e.allNodes isKept) :
    e.joinValue? m rows params = e.joinValue? m.unnegated rows.cut params := by
  cases e with
  | binary op left right =>
    simp only [allNodes_binary, Bool.and_eq_true] at hkept
    have hleft := joinValue?_of_isKept left hkept.2.1
    have hright := joinValue?_of_isKept right hkept.2.2
    cases op with
    | equal =>
      rw [joinValue?, joinValue?, hleft, hright]
      rfl
    | and =>
      rw [joinValue?, joinValue?, hleft, hright]
      rfl
    | _ => simp [joinValue?]
  | member target name type isKey =>
    rw [allNodes_member, Bool.and_eq_true] at hkept
    cases target with
    | param p => simp [joinValue?, path?, JoinRows.cut]
    | _ => simp [isKept] at hkept
  | unary op operand type =>
    simp only [allNodes_unary, Bool.and_eq_true, isKept, beq_iff_eq] at hkept
    obtain ⟨rfl, hoperand⟩ := hkept
    rw [joinValue?, joinValue?, joinValue?_of_isKept operand hoperand]
    rfl
  | const value => simp [joinValue?, JoinMeaning.unnegated]
  | record typeName members =>
    rw [allNodes_record, Bool.and_eq_true] at hkept
    rw [joinValue?, joinValue?, joinValues?_of_isKept members hkept.2]
  | _ => simp [joinValue?]

/-- The same for the members of a record. -/
lemma Expr.joinValues?_of_isKept (members : List (String × Expr))
    (hkept : members.all (fun x => x.2.allNodes isKept)) :
    joinValues? m rows params members =
      joinValues? m.unnegated rows.cut params members := by
  cases members with
  | nil => rw [joinValues?, joinValues?]
  | cons member rest =>
    simp only [all_cons, Bool.and_eq_true] at hkept
    rw [joinValues?, joinValues?, joinValue?_of_isKept member.2 hkept.1,
      joinValues?_of_isKept rest hkept.2]

end

end

/-! ### Meanings that notice what is passed over -/

/-- The meaning in which a value is true if nothing is passed over, and nothing is empty. -/
def JoinMeaning.noticing : JoinMeaning Bool where
  literal _ := true
  equal a b := a && b
  all vs := !vs.isEmpty && vs.all id
  all_one v := by simp
  not _ := false
  negate _ := false

/-- The rows that notice whether a member path is a single member. -/
def JoinRows.noticing : JoinRows Bool :=
  fun _ path => path.length == 1

section

variable {V : Type} {m : JoinMeaning V} {rows : JoinRows V} {whole : V → Prop}

/-- A value is whole only if its parts are, and nothing is empty. -/
structure JoinMeaning.Notices (m : JoinMeaning V) (rows : JoinRows V) (whole : V → Prop) :
    Prop where
  equal : ∀ {a b}, whole (m.equal a b) → whole a ∧ whole b
  all : ∀ {vs}, whole (m.all vs) → vs ≠ [] ∧ ∀ v ∈ vs, whole v
  sign : ∀ {op v}, whole (m.sign op v) → whole v
  rows : ∀ {side path}, whole (rows side path) → path.length = 1

/-- All parts of conditions have the same value. -/
structure JoinMeaning.Fixes (m : JoinMeaning V) (rows : JoinRows V) (top : V) : Prop where
  literal : ∀ v, m.literal v = top
  equal : m.equal top top = top
  all : ∀ vs, vs ≠ [] → (∀ v ∈ vs, v = top) → m.all vs = top
  rows : ∀ side name, rows side [name] = top

lemma JoinMeaning.fixes_noticing : noticing.Fixes JoinRows.noticing true where
  literal _ := rfl
  equal := rfl
  all vs hvs hall := by simpa [noticing, hvs] using hall
  rows _ _ := rfl

lemma Signs.fixes_meaning : Signs.meaning.Fixes Signs.rows (some empty) where
  literal _ := rfl
  equal := rfl
  all _ := all_of_empty
  rows _ _ := rfl

lemma JoinMeaning.notices_noticing : noticing.Notices JoinRows.noticing (· = true) where
  equal h := Bool.and_eq_true_iff.1 h
  all h := by simpa [noticing] using h
  sign {op v} h := by
    cases op with
    | convert => exact h
    | _ => cases h
  rows h := beq_iff_eq.1 h

lemma Signs.notices_meaning : Signs.meaning.Notices Signs.rows (fun v => v.isSome) where
  equal {a b} h := by
    cases a <;> cases b <;> simp_all [meaning]
  all {vs} h := by
    obtain ⟨s, hs⟩ := Option.isSome_iff_exists.1 h
    obtain rfl | ⟨hne, hempty, -⟩ := all_eq_some hs
    · simp
    · exact ⟨hne, fun v hv => by rw [hempty v hv]; rfl⟩
  sign {op v} h := by
    cases op with
    | convert => exact h
    | _ => simpa [JoinMeaning.sign, meaning] using h
  rows {side path} h := by
    rw [Signs.rows] at h
    split_ifs at h with hlength
    · exact hlength
    · cases h

/-- Nothing is passed over in a value, and nothing is empty. -/
def JoinValue.IsWhole (whole : V → Prop) : JoinValue V → Prop
  | .scalar v => whole v
  | .record vs => vs ≠ [] ∧ ∀ v ∈ vs, whole v

/-- A chain of members has no other nodes than members and its parameter. -/
lemma Expr.allNodes_of_root? {q : Expr → Bool} (hparam : ∀ p, q (.param p))
    (hmember : ∀ target name type isKey, q (.member target name type isKey)) {p : Param}
    (h : e.root? = some p) : e.allNodes q := by
  induction e using root?.induct with
  | case1 p' => simp [allNodes, nodes, hparam]
  | case2 target name type isKey ih => rw [allNodes_member, hmember, ih h, Bool.and_self]
  | case3 e hnotParam hnotMember =>
    rw [root?] at h
    · cases h
    · exact hnotParam
    · exact hnotMember

lemma Expr.eq_param_of_path? (h : e.path? = some []) : ∃ p, e = .param p := by
  cases e with
  | param p => exact ⟨p, rfl⟩
  | member target name type isKey =>
    rw [path?] at h
    cases hpath : target.path? with
    | none => simp [hpath] at h
    | some path => simp [hpath] at h
  | _ => simp [path?] at h

mutual

/-- A condition that can be read has the value of its parts. -/
lemma JoinSql.value_of_isReadable {top : V} (hm : m.Fixes rows top) (c : JoinSql)
    (hc : c.isReadable) : c.value m rows = top := by
  cases c with
  | column side name => rw [value, hm.rows]
  | literal v => rw [value, hm.literal]
  | equal a b =>
    rw [isReadable, Bool.and_eq_true] at hc
    rw [value, value_of_isReadable hm a hc.1, value_of_isReadable hm b hc.2, hm.equal]
  | all a b rest =>
    rw [isReadable, Bool.and_eq_true, Bool.and_eq_true] at hc
    rw [value, value_of_isReadable hm a hc.1.1, value_of_isReadable hm b hc.1.2]
    refine hm.all _ (cons_ne_nil _ _) ?_
    rw [forall_mem_cons, forall_mem_cons]
    exact ⟨rfl, rfl, values_of_allReadable hm rest hc.2⟩
  | nothing => simp [isReadable] at hc

/-- Readable conditions have the value that a meaning fixes. -/
lemma JoinSql.values_of_allReadable {top : V} (hm : m.Fixes rows top) (cs : List JoinSql)
    (hcs : allReadable cs) : ∀ v ∈ values m rows cs, v = top := by
  cases cs with
  | nil => simp [values]
  | cons c rest =>
    rw [allReadable, Bool.and_eq_true] at hcs
    rw [values, forall_mem_cons]
    exact ⟨value_of_isReadable hm c hcs.1, values_of_allReadable hm rest hcs.2⟩

end

lemma JoinValue.isWhole_of_same? (hm : m.Notices rows whole) {a b : JoinValue V} {v : V}
    (h : a.same? m b = some v) (hv : whole v) : a.IsWhole whole ∧ b.IsWhole whole := by
  have hzip : ∀ as bs : List V, as.length = bs.length →
      (∀ v ∈ zipWith m.equal as bs, whole v) → (∀ a ∈ as, whole a) ∧ ∀ b ∈ bs, whole b := by
    intro as
    induction as with
    | nil =>
      intro bs hlength _
      obtain rfl : bs = [] := eq_nil_of_length_eq_zero hlength.symm
      simp
    | cons a as ih =>
      intro bs hlength hwhole
      obtain _ | ⟨b, bs⟩ := bs
      · cases hlength
      rw [zipWith_cons_cons, forall_mem_cons] at hwhole
      obtain ⟨has, hbs⟩ := ih bs (Nat.succ.inj hlength) hwhole.2
      obtain ⟨ha, hb⟩ := hm.equal hwhole.1
      exact ⟨forall_mem_cons.2 ⟨ha, has⟩, forall_mem_cons.2 ⟨hb, hbs⟩⟩
  cases a with
  | scalar a =>
    cases b with
    | scalar b =>
      cases h
      exact hm.equal hv
    | record bs => cases h
  | record as =>
    cases b with
    | scalar b => cases h
    | record bs =>
      by_cases hlength : as.length = bs.length
      · rw [same?, if_pos hlength] at h
        cases h
        obtain ⟨hne, hwhole⟩ := hm.all hv
        obtain ⟨has, hbs⟩ := hzip as bs hlength hwhole
        have hboth : as ≠ [] ∧ bs ≠ [] := by simpa [zipWith_eq_nil_iff, not_or] using hne
        exact ⟨⟨hboth.1, has⟩, hboth.2, hbs⟩
      · simp [same?, hlength] at h

/-- What is passed over in an operand is so under the operator. -/
lemma JoinValue.isWhole_of_under? (hm : m.Notices rows whole) {op : UnaryOp} {v w : JoinValue V}
    (h : v.under? m op = some w) (hw : w.IsWhole whole) : v.IsWhole whole ∧
      ((∀ op v, whole (m.sign op v) → op = .convert) → op = .convert) := by
  cases v with
  | scalar v =>
    have hsign : whole (m.sign op v) := by
      cases op <;> cases h <;> exact hw
    exact ⟨hm.sign hsign, fun hkept => hkept op v hsign⟩
  | record vs =>
    cases op <;> cases h
    exact ⟨hw, fun _ => rfl⟩

mutual

/-- An expression with a value has literals only, and if nothing is passed over in its value, then
nothing is in the expression. -/
lemma Expr.isWhole_joinValue? (hm : m.Notices rows whole) (params : List Param) (e : Expr)
    {v : JoinValue V} (hv : e.joinValue? m rows params = some v) :
    e.allNodes isLiteral ∧ (v.IsWhole whole → e.allNodes isFilled ∧
      ((∀ op v, whole (m.sign op v) → op = .convert) → e.allNodes isKept)) := by
  cases e with
  | binary op left right =>
    cases op with
    | equal =>
      rw [joinValue?, Option.bind_eq_some_iff] at hv
      obtain ⟨l, hl, hv⟩ := hv
      rw [Option.bind_eq_some_iff] at hv
      obtain ⟨r, hr, hv⟩ := hv
      rw [Option.map_eq_some_iff] at hv
      obtain ⟨b, hb, rfl⟩ := hv
      obtain ⟨hleft, hwholeLeft⟩ := isWhole_joinValue? hm params left hl
      obtain ⟨hright, hwholeRight⟩ := isWhole_joinValue? hm params right hr
      refine ⟨by simp [allNodes_binary, isLiteral, hleft, hright], fun hwhole => ?_⟩
      obtain ⟨hwl, hwr⟩ := JoinValue.isWhole_of_same? hm hb hwhole
      exact ⟨by simp [allNodes_binary, isFilled, hwholeLeft hwl, hwholeRight hwr], fun hkept => by
        simp [allNodes_binary, isKept, (hwholeLeft hwl).2 hkept, (hwholeRight hwr).2 hkept]⟩
    | and =>
      rw [joinValue?, Option.bind_eq_some_iff] at hv
      obtain ⟨l, hl, hv⟩ := hv
      rw [Option.map_eq_some_iff] at hv
      obtain ⟨r, hr, rfl⟩ := hv
      obtain ⟨l', hl', hl⟩ := Option.bind_eq_some_iff.1 hl
      obtain ⟨r', hr', hr⟩ := Option.bind_eq_some_iff.1 hr
      obtain ⟨hleft, hwholeLeft⟩ := isWhole_joinValue? hm params left hl'
      obtain ⟨hright, hwholeRight⟩ := isWhole_joinValue? hm params right hr'
      refine ⟨by simp [allNodes_binary, isLiteral, hleft, hright], fun hwhole => ?_⟩
      have hboth := (hm.all hwhole).2
      have hwl : l'.IsWhole whole := by
        cases l' <;> cases hl
        exact hboth _ mem_cons_self
      have hwr : r'.IsWhole whole := by
        cases r' <;> cases hr
        exact hboth _ (mem_cons_of_mem _ mem_cons_self)
      exact ⟨by simp [allNodes_binary, isFilled, hwholeLeft hwl, hwholeRight hwr], fun hkept => by
        simp [allNodes_binary, isKept, (hwholeLeft hwl).2 hkept, (hwholeRight hwr).2 hkept]⟩
    | _ => simp [joinValue?] at hv
  | member target name type isKey =>
    rw [joinValue?, Option.bind_eq_some_iff] at hv
    obtain ⟨side, hside, hv⟩ := hv
    obtain ⟨p, hroot, -⟩ := Option.bind_eq_some_iff.1 hside
    obtain ⟨path, hpath, rfl⟩ := Option.map_eq_some_iff.1 hv
    have hliteral : target.allNodes isLiteral :=
      allNodes_of_root? (fun _ => rfl) (fun _ _ _ _ => rfl) hroot
    have hfilled : target.allNodes isFilled :=
      allNodes_of_root? (fun _ => rfl) (fun _ _ _ _ => rfl) hroot
    refine ⟨by simp [allNodes_member, isLiteral, hliteral], fun hwhole => ⟨?_, fun _ => ?_⟩⟩
    · simp [allNodes_member, isFilled, hfilled]
    · have hlength : (path ++ [name]).length = 1 := hm.rows hwhole
      obtain rfl : path = [] := by simpa using hlength
      obtain ⟨p, rfl⟩ := eq_param_of_path? hpath
      simp [allNodes, nodes, isKept]
  | unary op operand type =>
    rw [joinValue?] at hv
    obtain ⟨w, hw, hv⟩ := Option.bind_eq_some_iff.1 hv
    obtain ⟨hoperand, hwholeOperand⟩ := isWhole_joinValue? hm params operand hw
    refine ⟨by simp [allNodes_unary, isLiteral, hoperand], fun hwhole => ?_⟩
    obtain ⟨hwv, hconvert⟩ := JoinValue.isWhole_of_under? hm hv hwhole
    obtain ⟨hfilled, hkeptOperand⟩ := hwholeOperand hwv
    exact ⟨by simp [allNodes_unary, isFilled, hfilled], fun hkept => by
      simp [allNodes_unary, isKept, hconvert hkept, hkeptOperand hkept]⟩
  | const value =>
    rw [joinValue?] at hv
    obtain ⟨literal, hliteral, -⟩ := Option.map_eq_some_iff.1 hv
    simp [allNodes_const, isLiteral, isFilled, isKept, hliteral]
  | record typeName members =>
    rw [joinValue?] at hv
    obtain ⟨vs, hvs, rfl⟩ := Option.map_eq_some_iff.1 hv
    obtain ⟨hliterals, hlength, hwholeMembers⟩ := all_joinValues? hm params members hvs
    refine ⟨by rw [allNodes_record, hliterals]; rfl, fun hwhole => ?_⟩
    obtain ⟨hfilled, hkept⟩ := hwholeMembers hwhole.2
    have hmembers : members ≠ [] := by
      rintro rfl
      exact hwhole.1 (eq_nil_of_length_eq_zero hlength)
    exact ⟨by simp [allNodes_record, isFilled, hfilled, hmembers], fun h => by
      simp [allNodes_record, isKept, hkept h]⟩
  | _ => simp [joinValue?] at hv

/-- The same for the members of a record. -/
lemma Expr.all_joinValues? (hm : m.Notices rows whole) (params : List Param)
    (members : List (String × Expr)) {vs : List V}
    (hvs : joinValues? m rows params members = some vs) :
    members.all (fun x => x.2.allNodes isLiteral) ∧ vs.length = members.length ∧
      ((∀ v ∈ vs, whole v) → members.all (fun x => x.2.allNodes isFilled) ∧
        ((∀ op v, whole (m.sign op v) → op = .convert) →
          members.all fun x => x.2.allNodes isKept)) := by
  cases members with
  | nil =>
    rw [joinValues?] at hvs
    cases hvs
    exact ⟨rfl, rfl, fun _ => ⟨rfl, fun _ => rfl⟩⟩
  | cons member rest =>
    rw [joinValues?, Option.bind_eq_some_iff] at hvs
    obtain ⟨v, hv, hvs⟩ := hvs
    obtain ⟨v', hv', hv⟩ := Option.bind_eq_some_iff.1 hv
    obtain ⟨ws, hws, rfl⟩ := Option.map_eq_some_iff.1 hvs
    obtain ⟨hliteral, hwhole⟩ := isWhole_joinValue? hm params member.2 hv'
    obtain ⟨hliterals, hlength, hwholes⟩ := all_joinValues? hm params rest hws
    refine ⟨by simp only [all_cons, hliteral, hliterals, Bool.and_self],
      congrArg (· + 1) hlength, fun hall => ?_⟩
    rw [forall_mem_cons] at hall
    have hmember : v'.IsWhole whole := by
      cases v' <;> cases hv
      exact hall.1
    obtain ⟨hfilled, hkept⟩ := hwhole hmember
    obtain ⟨hfilleds, hkepts⟩ := hwholes hall.2
    exact ⟨by simp only [all_cons, hfilled, hfilleds, Bool.and_self], fun h => by
      simp only [all_cons, hkept h, hkepts h, Bool.and_self]⟩

end

end

/-! ## The text and the lambda -/

/-- The text of a join condition is read as a condition that has, in every meaning and for all rows,
the value of the lambda without its negations and with the last names of its member paths only, if
constants are literals and records are not empty.  It has the value of the lambda itself exactly if
besides there is no negation and each member is read from a parameter.  Under the laws of ordinary
negation it has this value exactly if all signs cancel, one behind the other or on both sides of an
equality. -/
theorem joinCondition_value_iff (on : Lambda) (l r text : String)
    (haliases : JoinSql.AreAliases l r) (hnames : on.body.allNodes Expr.isNamed = true)
    (htext : on.joinCondition l r = .ok text) :
    (on.body.allNodes Expr.isLiteral = true → on.body.allNodes Expr.isFilled = true →
      ∃ sql, JoinSql.read l r text = some sql ∧
        ∀ (V : Type) (m : JoinMeaning V) (rows : JoinRows V),
          on.joinValue? m.unnegated rows.cut = some (sql.value m rows)) ∧
    ((∃ sql, JoinSql.read l r text = some sql ∧
        ∀ (V : Type) (m : JoinMeaning V) (rows : JoinRows V),
          on.joinValue? m rows = some (sql.value m rows)) ↔
      on.body.allNodes Expr.isLiteral = true ∧ on.body.allNodes Expr.isFilled = true ∧
        on.body.allNodes Expr.isKept = true) ∧
    ((∃ sql, JoinSql.read l r text = some sql ∧
        ∀ (V : Type) (m : JoinMeaning V), m.IsLawful → ∀ rows : JoinRows V,
          on.joinValue? m rows = some (sql.value m rows)) ↔
      on.joinValue? Signs.meaning Signs.rows = some (some .empty)) := by
  have hwritten : on.body.allNodes Expr.isLiteral → ∃ c,
      JoinSql.read l r text = (if c.isReadable then some c else none) ∧
      (on.body.allNodes Expr.isFilled → c.isReadable) ∧
      ∀ (V : Type) (m : JoinMeaning V) (rows : JoinRows V),
        on.joinValue? m.unnegated rows.cut = some (c.value m rows) := by
    intro hliterals
    obtain ⟨c, hc, hw⟩ := Expr.joinText_ok ⟨on.params, l, r⟩ on.body htext hnames hliterals
    refine ⟨c, ?_, hw.readable, fun V m rows => ?_⟩
    · rw [hw.text_eq]
      exact JoinSql.read_text haliases c hw.names
    · rw [on.joinValue?_map (JoinSql.maps_value m rows), Lambda.joinValue?, hc]
      rfl
  -- only a condition without empty brackets can have been read
  have hreadable : ∀ {sql}, JoinSql.read l r text = some sql → on.body.allNodes Expr.isLiteral →
      sql.isReadable := by
    intro sql hsql hliterals
    obtain ⟨c, hread, -, -⟩ := hwritten hliterals
    rw [hsql] at hread
    split_ifs at hread with hc
    cases hread
    exact hc
  refine ⟨fun hliterals hfilled => ?_, ⟨fun h => ?_, fun h => ?_⟩,
    fun h => ?_, fun hsigns => ?_⟩
  · obtain ⟨c, hread, hreadable, hvalue⟩ := hwritten hliterals
    rw [hreadable hfilled] at hread
    exact ⟨c, hread, hvalue⟩
  · obtain ⟨sql, hsql, hvalue⟩ := h
    have hbody := hvalue Bool JoinMeaning.noticing JoinRows.noticing
    obtain ⟨v, hv, hscalar⟩ := Option.bind_eq_some_iff.1 hbody
    obtain ⟨hliterals, hwhole⟩ :=
      Expr.isWhole_joinValue? JoinMeaning.notices_noticing on.params on.body hv
    rw [JoinSql.value_of_isReadable JoinMeaning.fixes_noticing sql
      (hreadable hsql hliterals)] at hscalar
    have hv : v.IsWhole (· = true) := by
      cases v <;> cases hscalar
      rfl
    exact ⟨hliterals, (hwhole hv).1, (hwhole hv).2 fun op v h => by
      cases op with
      | convert => rfl
      | _ => cases h⟩
  · obtain ⟨hliterals, hfilled, hkept⟩ := h
    obtain ⟨c, hread, hreadable, hvalue⟩ := hwritten hliterals
    rw [hreadable hfilled] at hread
    refine ⟨c, hread, fun V m rows => ?_⟩
    rw [← hvalue V m rows, Lambda.joinValue?, Expr.joinValue?_of_isKept _ _ _ _ hkept]
    rfl
  · obtain ⟨sql, hsql, hvalue⟩ := h
    have hbody := hvalue _ Signs.meaning Signs.isLawful_meaning Signs.rows
    obtain ⟨v, hv, -⟩ := Option.bind_eq_some_iff.1 hbody
    have hliterals := (Expr.isWhole_joinValue? Signs.notices_meaning on.params on.body hv).1
    rw [hbody, JoinSql.value_of_isReadable Signs.fixes_meaning sql (hreadable hsql hliterals)]
  · obtain ⟨v, hv, hscalar⟩ := Option.bind_eq_some_iff.1 hsigns
    obtain ⟨hliterals, hwhole⟩ :=
      Expr.isWhole_joinValue? Signs.notices_meaning on.params on.body hv
    have hv : v.IsWhole fun v => v.isSome := by
      cases v <;> cases hscalar
      rfl
    obtain ⟨c, hread, hreadable, hvalue⟩ := hwritten hliterals
    rw [hreadable (hwhole hv).1] at hread
    refine ⟨c, hread, fun V m hm rows => ?_⟩
    rw [← hvalue V m rows, Lambda.joinValue?_of_signs hm rows hsigns]

/-- The condition that a column of one row differs from a column of the other. -/
def antiJoin : Lambda where
  params := [⟨"x", .unknown⟩, ⟨"y", .unknown⟩]
  body := .unary .not
    (.binary .equal (.member (.param ⟨"x", .unknown⟩) "A" .unknown false)
      (.member (.param ⟨"y", .unknown⟩) "B" .unknown false)) .bool

/-- The opposite condition. -/
def Lambda.negated (on : Lambda) : Lambda :=
  { on with body := .unary .not on.body .bool }

/-- The text of a negated equality is that of the equality, which does not mean the same; that of an
equality negated twice does. -/
theorem joinCondition_value_antiJoin :
    JoinSql.AreAliases "o" "i" ∧ antiJoin.body.allNodes Expr.isNamed = true ∧
    antiJoin.joinCondition "o" "i" = .ok "(o.A = i.B)" ∧
    antiJoin.negated.joinCondition "o" "i" = .ok "(o.A = i.B)" ∧
    (¬ ∃ sql, JoinSql.read "o" "i" "(o.A = i.B)" = some sql ∧
      ∀ (V : Type) (m : JoinMeaning V) (rows : JoinRows V),
        antiJoin.joinValue? m rows = some (sql.value m rows)) ∧
    (¬ ∃ sql, JoinSql.read "o" "i" "(o.A = i.B)" = some sql ∧
      ∀ (V : Type) (m : JoinMeaning V), m.IsLawful → ∀ rows : JoinRows V,
        antiJoin.joinValue? m rows = some (sql.value m rows)) ∧
    ∃ sql, JoinSql.read "o" "i" "(o.A = i.B)" = some sql ∧
      ∀ (V : Type) (m : JoinMeaning V), m.IsLawful → ∀ rows : JoinRows V,
        antiJoin.negated.joinValue? m rows = some (sql.value m rows) := by
  have haliases : JoinSql.AreAliases "o" "i" := ⟨by decide, by decide, by decide⟩
  have hnames : antiJoin.body.allNodes Expr.isNamed := by decide
  have htext : antiJoin.joinCondition "o" "i" = .ok "(o.A = i.B)" := by decide +kernel
  have htwice : antiJoin.negated.joinCondition "o" "i" = .ok "(o.A = i.B)" := by decide +kernel
  obtain ⟨-, hkept, hsigns⟩ := joinCondition_value_iff antiJoin "o" "i" _ haliases hnames htext
  obtain ⟨-, -, hcancel⟩ :=
    joinCondition_value_iff antiJoin.negated "o" "i" _ haliases (by decide) htwice
  exact ⟨haliases, hnames, htext, htwice, fun h => absurd (hkept.1 h) (by decide),
    fun h => absurd (hsigns.1 h) (by decide), hcancel.2 (by decide)⟩

end StreamQuery
