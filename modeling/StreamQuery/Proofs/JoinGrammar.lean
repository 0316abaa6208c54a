import StreamQuery.Proofs.FilterParts
import StreamQuery.Proofs.JoinMeaning

/-!
# Which FROM clauses can be written

`JoinBody` is the grammar of the conditions that can be written, `JoinWritten` their texts, in which
every column stands behind the alias of its side, and `JoinFault` what is wrong with any other
condition: the fault of the first part that has one.  A condition is in the grammar or has a fault
(`Expr.joinBody_or_joinFault`), and the writer takes the one kind and refuses the other
(`Expr.joinText_of_joinBody`, `Expr.joinText_of_joinFault`).  `FromClause.ofQuery_iff` puts the
condition last in the row of the demands on a clause with two sources.
-/

namespace StreamQuery

open List

/-! ## The grammar of join conditions -/

namespace Expr

/-- The values that two records are compared by, as they are written. -/
def interleaved (left right : List Expr) : List Expr :=
  (left.zip right).flatMap fun p => [p.1, p.2]

/-- The parts of a condition that are written one after another: the operands of an operation, and
the members of compared records of the same size. -/
def joinParts : Expr → List Expr
  | .unary _ operand _ => [operand]
  | .binary .and left right => [left, right]
  | .binary .equal left right =>
    match left.recordValues?, right.recordValues? with
    | some ls, some rs => if ls.length = rs.length then interleaved ls rs else []
    | _, _ => [left, right]
  | _ => []

/-- True for the kinds of expressions that join conditions are made of. -/
def isJoinNode : Expr → Bool
  | .const _ | .member _ _ _ _ | .unary _ _ _ => true
  | .binary op _ _ => op == .equal || op == .and
  | _ => false

/-- The side of a chain of members, by the parameter that it starts from. -/
def chainSide? (params : List Param) (e : Expr) : Option Side :=
  e.root?.bind fun p => side? params p.name

end Expr

/-- The join conditions that can be written. -/
inductive JoinBody (params : List Param) : Expr → Prop
  | const (value : Constant) : JoinBody params (.const value)
  /-- A chain of members that starts from one of the first two parameters. -/
  | member {target : Expr} {side : Side} (name : String) (type : DataType) (isKey : Bool)
      (hside : target.chainSide? params = some side) :
      JoinBody params (.member target name type isKey)
  | unary {operand : Expr} (op : UnaryOp) (type : DataType) (h : JoinBody params operand) :
      JoinBody params (.unary op operand type)
  | and {left right : Expr} (hleft : JoinBody params left) (hright : JoinBody params right) :
      JoinBody params (.binary .and left right)
  /-- An equality of records of the same size. -/
  | records {left right : Expr} {ls rs : List Expr}
      (hls : left.recordValues? = some ls) (hrs : right.recordValues? = some rs)
      (hsize : ls.length = rs.length) (hleft : ∀ e ∈ ls, JoinBody params e)
      (hright : ∀ e ∈ rs, JoinBody params e) : JoinBody params (.binary .equal left right)
  /-- Any other equality. -/
  | equal {left right : Expr} (hother : left.recordValues? = none ∨ right.recordValues? = none)
      (hleft : JoinBody params left) (hright : JoinBody params right) :
      JoinBody params (.binary .equal left right)

/-- The texts of join conditions under two aliases. -/
inductive JoinWritten (params : List Param) (l r : String) : Expr → String → Prop
  | const (value : Constant) : JoinWritten params l r (.const value) value.sql
  /-- The last member of a chain, behind the alias of the side of its parameter. -/
  | member {target : Expr} {side : Side} (name : String) (type : DataType) (isKey : Bool)
      (hside : target.chainSide? params = some side) :
      JoinWritten params l r (.member target name type isKey) (side.pick l r ++ "." ++ name)
  /-- A unary operation is passed over. -/
  | unary {operand : Expr} {t : String} (op : UnaryOp) (type : DataType)
      (h : JoinWritten params l r operand t) : JoinWritten params l r (.unary op operand type) t
  | and {left right : Expr} {t u : String} (hleft : JoinWritten params l r left t)
      (hright : JoinWritten params l r right u) :
      JoinWritten params l r (.binary .and left right) ("(" ++ t ++ " AND " ++ u ++ ")")
  /-- An equality of records is written as the equalities of their members. -/
  | records {left right : Expr} {ls rs : List Expr} {ts us : List String}
      (hls : left.recordValues? = some ls) (hrs : right.recordValues? = some rs)
      (hsize : ls.length = rs.length) (hts : ts.length = ls.length) (hus : us.length = rs.length)
      (hleft : ∀ q ∈ ls.zip ts, JoinWritten params l r q.1 q.2)
      (hright : ∀ q ∈ rs.zip us, JoinWritten params l r q.1 q.2) :
      JoinWritten params l r (.binary .equal left right)
        (JoinSql.conjText (zipWith (fun t u => "(" ++ t ++ " = " ++ u ++ ")") ts us))
  | equal {left right : Expr} {t u : String}
      (hother : left.recordValues? = none ∨ right.recordValues? = none)
      (hleft : JoinWritten params l r left t) (hright : JoinWritten params l r right u) :
      JoinWritten params l r (.binary .equal left right) ("(" ++ t ++ " = " ++ u ++ ")")

/-- The faults of join conditions. -/
inductive JoinFault (params : List Param) : Expr → Fault → Prop
  | shape {e : Expr} (h : e.isJoinNode = false) : JoinFault params e .joinShape
  | column {target : Expr} (name : String) (type : DataType) (isKey : Bool)
      (hside : target.chainSide? params = none) :
      JoinFault params (.member target name type isKey) (.unqualifiedJoinColumn name)
  | sizes {left right : Expr} {ls rs : List Expr}
      (hls : left.recordValues? = some ls) (hrs : right.recordValues? = some rs)
      (hsize : ls.length ≠ rs.length) : JoinFault params (.binary .equal left right) .compositeSizes
  /-- The fault of the first part that has one. -/
  | part {e d : Expr} {before after : List Expr} {fault : Fault}
      (hparts : e.joinParts = before ++ d :: after) (hbefore : ∀ b ∈ before, JoinBody params b)
      (h : JoinFault params d fault) : JoinFault params e fault

/-! ## A condition is in the grammar or has a fault -/

namespace Expr

variable {e d : Expr}

lemma sizeOf_lt_of_recordValues? {values : List Expr} (h : e.recordValues? = some values)
    (hd : d ∈ values) : sizeOf d < sizeOf e := by
  induction e using recordValues?.induct with
  | case1 typeName members =>
    obtain rfl := Option.some.inj h
    obtain ⟨x, hx, rfl⟩ := mem_map.1 hd
    have hmember := sizeOf_lt_of_mem hx
    have hpair : sizeOf x = 1 + sizeOf x.1 + sizeOf x.2 := rfl
    rw [record.sizeOf_spec]
    omega
  | case2 operand type ih =>
    have hoperand := ih h
    rw [unary.sizeOf_spec]
    omega
  | case3 e hrecord hunary =>
    rw [recordValues?] at h
    · cases h
    · exact hrecord
    · exact hunary

lemma mem_interleaved {left right : List Expr} (h : d ∈ interleaved left right) :
    d ∈ left ∨ d ∈ right := by
  obtain ⟨p, hp, hd⟩ := mem_flatMap.1 h
  obtain ⟨hleft, hright⟩ := of_mem_zip hp
  rcases mem_cons.1 hd with rfl | hd
  · exact .inl hleft
  · exact .inr (mem_singleton.1 hd ▸ hright)

lemma sizeOf_lt_of_mem_joinParts (h : d ∈ e.joinParts) : sizeOf d < sizeOf e := by
  cases e with
  | unary op operand type =>
    rw [joinParts, mem_singleton] at h
    rw [h, unary.sizeOf_spec]
    omega
  | binary op left right =>
    have hoperand : d ∈ [left, right] → sizeOf d < sizeOf (binary op left right) := by
      intro hd
      rw [binary.sizeOf_spec]
      rcases mem_cons.1 hd with rfl | hd
      · omega
      · obtain rfl := mem_singleton.1 hd
        omega
    cases op with
    | and =>
      rw [joinParts] at h
      exact hoperand h
    | equal =>
      rw [joinParts] at h
      split at h
      · next ls rs hls hrs =>
        split at h
        · rw [binary.sizeOf_spec]
          rcases mem_interleaved h with hd | hd
          · have hvalue := sizeOf_lt_of_recordValues? hls hd
            omega
          · have hvalue := sizeOf_lt_of_recordValues? hrs hd
            omega
        · cases h
      · exact hoperand h
    | _ => simp [joinParts] at h
  | _ => simp [joinParts] at h

/-- Where each expression is of one kind or another, all are of the one, or one of the other comes
first. -/
lemma forall_or_first {P Q : Expr → Prop} {es : List Expr} (h : ∀ e ∈ es, P e ∨ Q e) :
    (∀ e ∈ es, P e) ∨ ∃ before d after, es = before ++ d :: after ∧ (∀ b ∈ before, P b) ∧ Q d := by
  induction es with
  | nil => exact .inl (forall_mem_nil _)
  | cons e es ih =>
    obtain ⟨hfirst, hrest⟩ := forall_mem_cons.1 h
    rcases hfirst with hfirst | hfirst
    · rcases ih hrest with hall | ⟨before, d, after, rfl, hbefore, hd⟩
      · exact .inl (forall_mem_cons.2 ⟨hfirst, hall⟩)
      · exact .inr ⟨e :: before, d, after, rfl, forall_mem_cons.2 ⟨hfirst, hbefore⟩, hd⟩
    · exact .inr ⟨[], e, es, rfl, forall_mem_nil _, hfirst⟩

/-- Each value of records of the same size is compared with one of the other. -/
lemma mem_interleaved_of_length_eq {left right : List Expr} (hsize : left.length = right.length)
    (hd : d ∈ left ∨ d ∈ right) : d ∈ interleaved left right := by
  rw [interleaved, mem_flatMap]
  rcases hd with hd | hd
  · rw [← map_fst_zip (Nat.le_of_eq hsize)] at hd
    obtain ⟨p, hp, rfl⟩ := mem_map.1 hd
    exact ⟨p, hp, mem_cons_self⟩
  · rw [← map_snd_zip (Nat.le_of_eq hsize.symm)] at hd
    obtain ⟨p, hp, rfl⟩ := mem_map.1 hd
    exact ⟨p, hp, mem_cons_of_mem _ mem_cons_self⟩

lemma eq_none_or_eq_none {a b : Option (List Expr)}
    (h : ∀ x y, a = some x → b = some y → False) : a = none ∨ b = none := by
  cases a with
  | none => exact .inl rfl
  | some x => exact .inr (Option.eq_none_iff_forall_ne_some.2 fun y hy => h x y rfl hy)

/-- A condition of parts in the grammar is in it, or has a fault itself. -/
lemma joinBody_or_joinFault_of_parts {params : List Param}
    (hparts : ∀ d ∈ e.joinParts, JoinBody params d) :
    JoinBody params e ∨ ∃ fault, JoinFault params e fault := by
  cases e with
  | const value => exact .inl (.const value)
  | member target name type isKey =>
    cases hside : target.chainSide? params with
    | none => exact .inr ⟨_, .column name type isKey hside⟩
    | some side => exact .inl (.member name type isKey hside)
  | unary op operand type =>
    rw [joinParts] at hparts
    exact .inl (.unary op type (hparts operand mem_cons_self))
  | binary op left right =>
    cases op with
    | and =>
      rw [joinParts] at hparts
      obtain ⟨hleft, hright⟩ := forall_mem_cons.1 hparts
      exact .inl (.and hleft (hright right mem_cons_self))
    | equal =>
      rw [joinParts] at hparts
      split at hparts
      · next ls rs hls hrs =>
        by_cases hsize : ls.length = rs.length
        · rw [if_pos hsize] at hparts
          refine .inl (.records hls hrs hsize (fun d hd => ?_) fun d hd => ?_)
          · exact hparts d (mem_interleaved_of_length_eq hsize (.inl hd))
          · exact hparts d (mem_interleaved_of_length_eq hsize (.inr hd))
        · exact .inr ⟨_, .sizes hls hrs hsize⟩
      · next hother =>
        obtain ⟨hleft, hright⟩ := forall_mem_cons.1 hparts
        refine .inl (.equal ?_ hleft (hright right mem_cons_self))
        exact eq_none_or_eq_none hother
    | _ => exact .inr ⟨_, .shape rfl⟩
  | _ => exact .inr ⟨_, .shape rfl⟩

/-- A condition is in the grammar or has a fault. -/
lemma joinBody_or_joinFault (params : List Param) (e : Expr) :
    JoinBody params e ∨ ∃ fault, JoinFault params e fault := by
  induction hn : sizeOf e using Nat.strongRecOn generalizing e with
  | ind n ih =>
    have hparts : ∀ d ∈ e.joinParts, JoinBody params d ∨ ∃ fault, JoinFault params d fault :=
      fun d hd => ih (sizeOf d) (hn ▸ sizeOf_lt_of_mem_joinParts hd) d rfl
    rcases forall_or_first hparts with hall | ⟨before, d, after, hsplit, hbefore, fault, hfault⟩
    · exact joinBody_or_joinFault_of_parts hall
    · exact .inr ⟨fault, .part hsplit hbefore hfault⟩

/-! ## The writer -/

section

variable (s : JoinSides)

lemma joinMembers?_eq (e : Expr) : e.joinMembers? s = e.recordValues?.map (map (joinText s)) := by
  have htexts : ∀ members : List (String × Expr),
      joinTexts s members = (members.map Prod.snd).map (joinText s) := by
    intro members
    induction members with
    | nil => rw [joinTexts, map_nil, map_nil]
    | cons x members ih => rw [joinTexts, ih, map_cons, map_cons]
  induction e using recordValues?.induct with
  | case1 typeName members => rw [joinMembers?, recordValues?, Option.map_some, htexts]
  | case2 operand type ih => rw [joinMembers?, recordValues?, ih]
  | case3 e hrecord hunary =>
    rw [joinMembers?, recordValues?, Option.map_none]
    · exact hrecord
    · exact hunary
    · exact hrecord
    · exact hunary

/-- The text of an equality of records. -/
lemma joinText_records {left right : Expr} {ls rs : List Expr}
    (hls : left.recordValues? = some ls) (hrs : right.recordValues? = some rs) :
    (binary .equal left right).joinText s =
      compositeText equalText (ls.map (joinText s)) (rs.map (joinText s)) := by
  rw [joinText, joinMembers?_eq, joinMembers?_eq, hls, hrs]
  rfl

/-- The text of any other equality. -/
lemma joinText_equal {left right : Expr}
    (hother : left.recordValues? = none ∨ right.recordValues? = none) :
    (binary .equal left right).joinText s =
      (left.joinText s).bind fun l => (right.joinText s).bind fun r => .ok (equalText l r) := by
  rw [joinText, joinMembers?_eq, joinMembers?_eq]
  rcases hother with hnone | hnone
  · rw [hnone]
    rfl
  · rw [hnone]
    cases left.recordValues? <;> rfl

/-- The text of a conjunction. -/
lemma joinText_and (left right : Expr) :
    (binary .and left right).joinText s =
      (left.joinText s).bind fun l =>
        (right.joinText s).bind fun r => .ok ("(" ++ l ++ " AND " ++ r ++ ")") := by
  rw [joinText]
  rfl

/-- The text of a member. -/
lemma joinText_member (target : Expr) (name : String) (type : DataType) (isKey : Bool) :
    (member target name type isKey).joinText s =
      (target.chainSide? s.params).elim (.error (.unqualifiedJoinColumn name))
        fun side => .ok (side.pick s.left s.right ++ "." ++ name) := by
  have hside : (target.root?.bind fun p => s.alias? p.name) =
      (target.chainSide? s.params).map (Side.pick s.left s.right) := by
    unfold chainSide?
    cases target.root? with
    | none => rfl
    | some p => exact s.alias?_eq p.name
  rw [joinText, hside]
  cases target.chainSide? s.params <;> rfl

end

end Expr

/-! ## What is written and what is refused -/

/-- The text of records that are compared, if all their members have texts. -/
lemma compositeText_of_ok (write : String → String → String) {ts us : List String}
    (hsize : ts.length = us.length) :
    compositeText write (ts.map .ok) (us.map .ok) =
      .ok (JoinSql.conjText (zipWith write ts us)) := by
  have hpairs : ∀ {ts us : List String}, ts.length = us.length →
      (((ts.map .ok).zip (us.map .ok)).mapM fun p : Except Fault String × Except Fault String =>
        do return write (← p.1) (← p.2)) = .ok (zipWith write ts us) := by
    intro ts
    induction ts with
    | nil =>
      intro us hsize
      obtain rfl := eq_nil_of_length_eq_zero hsize.symm
      rfl
    | cons t ts ih =>
      intro us hsize
      obtain _ | ⟨u, us⟩ := us
      · cases hsize
      rw [map_cons, map_cons, zip_cons_cons, mapM_cons, ih (Nat.succ.inj hsize)]
      rfl
  unfold compositeText
  have hlength : ((ts.map Except.ok : List (Except Fault String)).length !=
      (us.map Except.ok : List (Except Fault String)).length) = false := by
    simp [hsize]
  rw [hlength, if_neg Bool.false_ne_true]
  change Except.bind (((ts.map Except.ok).zip (us.map Except.ok)).mapM
    fun p => do return write (← p.1) (← p.2)) _ = _
  rw [hpairs hsize]
  generalize zipWith write ts us = pairs
  rcases pairs with _ | ⟨a, _ | ⟨b, more⟩⟩ <;> rfl

/-- Records of the same size are refused for the first fault of their members. -/
lemma compositeText_of_error (write : String → String → String)
    {left right before after : List (Except Fault String)} {fault : Fault}
    (hsize : left.length = right.length)
    (hsplit : (left.zip right).flatMap (fun p => [p.1, p.2]) = before ++ .error fault :: after)
    (hbefore : ∀ result ∈ before, ∃ t, result = .ok t) :
    compositeText write left right = .error fault := by
  have hpairs : ∀ {pairs : List (Except Fault String × Except Fault String)}
      {before : List (Except Fault String)},
      pairs.flatMap (fun p => [p.1, p.2]) = before ++ .error fault :: after →
      (∀ result ∈ before, ∃ t, result = .ok t) →
      (pairs.mapM fun p => do return write (← p.1) (← p.2)) = .error fault := by
    intro pairs
    induction pairs with
    | nil =>
      intro before hsplit _
      simp at hsplit
    | cons p pairs ih =>
      intro before hsplit hbefore
      obtain ⟨l, r⟩ := p
      rw [flatMap_cons] at hsplit
      rw [mapM_cons]
      -- the fault is that of the first member, of the second, or of a later pair
      rcases before with _ | ⟨b, _ | ⟨b', before⟩⟩
      · obtain ⟨rfl, -⟩ := cons.inj hsplit
        rfl
      · obtain ⟨rfl, hrest⟩ := cons.inj hsplit
        obtain ⟨rfl, -⟩ := cons.inj hrest
        obtain ⟨t, rfl⟩ := hbefore _ mem_cons_self
        rfl
      · obtain ⟨rfl, hrest⟩ := cons.inj hsplit
        obtain ⟨rfl, hlater⟩ := cons.inj hrest
        simp only [forall_mem_cons] at hbefore
        obtain ⟨⟨t, rfl⟩, ⟨u, rfl⟩, hbefore⟩ := hbefore
        rw [ih hlater hbefore]
        rfl
  unfold compositeText
  rw [bne_eq_false_iff_eq.2 hsize, if_neg Bool.false_ne_true]
  change Except.bind ((left.zip right).mapM fun p => do return write (← p.1) (← p.2)) _ = _
  rw [hpairs hsplit hbefore]
  rfl

/-- Records of different sizes are refused. -/
lemma compositeText_of_sizes (write : String → String → String)
    {left right : List (Except Fault String)} (hsize : left.length ≠ right.length) :
    compositeText write left right = .error .compositeSizes := by
  unfold compositeText
  rw [if_pos (bne_iff_ne.2 hsize)]

namespace Expr

variable {s : JoinSides} {e : Expr}

/-- Values with texts have a list of texts. -/
lemma exists_joinTexts {values : List Expr}
    (h : ∀ e ∈ values, ∃ t, e.joinText s = .ok t ∧ JoinWritten s.params s.left s.right e t) :
    ∃ ts, values.map (joinText s) = ts.map .ok ∧ ts.length = values.length ∧
      ∀ q ∈ values.zip ts, JoinWritten s.params s.left s.right q.1 q.2 := by
  induction values with
  | nil => exact ⟨[], rfl, rfl, forall_mem_nil _⟩
  | cons e values ih =>
    obtain ⟨⟨t, ht, hwritten⟩, hrest⟩ := forall_mem_cons.1 h
    obtain ⟨ts, hts, hlength, hall⟩ := ih hrest
    refine ⟨t :: ts, ?_, congrArg (· + 1) hlength, forall_mem_cons.2 ⟨hwritten, hall⟩⟩
    rw [map_cons, ht, hts, map_cons]

/-- A condition in the grammar is written. -/
lemma joinText_of_joinBody (h : JoinBody s.params e) :
    ∃ t, e.joinText s = .ok t ∧ JoinWritten s.params s.left s.right e t := by
  induction h with
  | const value => exact ⟨_, by rw [joinText], .const value⟩
  | member name type isKey hside =>
    exact ⟨_, by rw [joinText_member, hside, Option.elim_some], .member name type isKey hside⟩
  | unary op type _ ih =>
    obtain ⟨t, ht, hwritten⟩ := ih
    exact ⟨t, by rw [joinText, ht], .unary op type hwritten⟩
  | and _ _ ihleft ihright =>
    obtain ⟨t, ht, hleft⟩ := ihleft
    obtain ⟨u, hu, hright⟩ := ihright
    refine ⟨_, ?_, .and hleft hright⟩
    rw [joinText_and, ht, hu]
    rfl
  | records hls hrs hsize _ _ ihleft ihright =>
    obtain ⟨ts, hts, htsize, hleft⟩ := exists_joinTexts ihleft
    obtain ⟨us, hus, husize, hright⟩ := exists_joinTexts ihright
    refine ⟨_, ?_, .records hls hrs hsize htsize husize hleft hright⟩
    rw [joinText_records s hls hrs, hts, hus, compositeText_of_ok]
    · rfl
    · rw [htsize, husize, hsize]
  | equal hother _ _ ihleft ihright =>
    obtain ⟨t, ht, hleft⟩ := ihleft
    obtain ⟨u, hu, hright⟩ := ihright
    refine ⟨_, ?_, .equal hother hleft hright⟩
    rw [joinText_equal s hother, ht, hu]
    rfl

/-- Two operands in a row are refused for the first fault of them. -/
lemma bind_of_operands {left right d : Expr} {before after : List Expr} {fault : Fault}
    (hsplit : [left, right] = before ++ d :: after) (hbefore : ∀ b ∈ before, JoinBody s.params b)
    (hfault : d.joinText s = .error fault) (write : String → String → String) :
    ((left.joinText s).bind fun l => (right.joinText s).bind fun r => .ok (write l r)) =
      .error fault := by
  rcases before with _ | ⟨b, before⟩
  · obtain ⟨rfl, -⟩ := cons.inj hsplit
    rw [hfault]
    rfl
  · obtain ⟨rfl, hrest⟩ := cons.inj hsplit
    obtain ⟨t, ht, -⟩ := joinText_of_joinBody (hbefore left mem_cons_self)
    rcases before with _ | ⟨b', before⟩
    · obtain ⟨rfl, -⟩ := cons.inj hrest
      rw [ht, hfault]
      rfl
    · simp at hrest

/-- A condition with a fault is refused for it. -/
lemma joinText_of_joinFault {fault : Fault} (h : JoinFault s.params e fault) :
    e.joinText s = .error fault := by
  induction h with
  | @shape e hnode =>
    cases e with
    | binary op left right =>
      cases op with
      | equal => cases hnode
      | and => cases hnode
      | _ => rw [joinText] <;> simp
    | const value => cases hnode
    | member target name type isKey => cases hnode
    | unary op operand type => cases hnode
    | _ => rw [joinText] <;> simp
  | column name type isKey hside => rw [joinText_member, hside, Option.elim_none]
  | sizes hls hrs hsize =>
    rw [joinText_records s hls hrs]
    refine compositeText_of_sizes _ ?_
    rwa [length_map, length_map]
  | @part e d before after fault hparts hbefore _ ih =>
    cases e with
    | unary op operand type =>
      rw [joinParts] at hparts
      rcases before with _ | ⟨b, before⟩
      · obtain ⟨rfl, -⟩ := cons.inj hparts
        rw [joinText, ih]
      · simp at hparts
    | binary op left right =>
      cases op with
      | and =>
        rw [joinParts] at hparts
        rw [joinText_and]
        exact bind_of_operands hparts hbefore ih _
      | equal =>
        rw [joinParts] at hparts
        split at hparts
        · next ls rs hls hrs =>
          split at hparts
          · next hsize =>
            rw [joinText_records s hls hrs]
            have hlength : (ls.map (joinText s)).length = (rs.map (joinText s)).length := by
              rwa [length_map, length_map]
            have hresults : ((ls.map (joinText s)).zip (rs.map (joinText s))).flatMap
                (fun p => [p.1, p.2]) =
                before.map (joinText s) ++ .error fault :: after.map (joinText s) := by
              rw [← ih, ← map_cons, ← map_append, ← hparts, interleaved, map_flatMap,
                zip_map, flatMap_map]
              rfl
            refine compositeText_of_error _ hlength hresults ?_
            · intro result hresult
              obtain ⟨b, hb, rfl⟩ := mem_map.1 hresult
              obtain ⟨t, ht, -⟩ := joinText_of_joinBody (hbefore b hb)
              exact ⟨t, ht⟩
          · simp at hparts
        · next hother =>
          rw [joinText_equal s (eq_none_or_eq_none hother)]
          exact bind_of_operands hparts hbefore ih _
      | _ => simp [joinParts] at hparts
    | _ => simp [joinParts] at hparts

end Expr

/-! ## Clauses -/

/-- A join has a positive time bound of its own, or the default is allowed. -/
def Query.HasBound (q : Query) : Prop :=
  (∃ n, q.within = some n ∧ 0 < n) ∨ q.forbidDefaultWithin = false

namespace FromClause

/-- The first demand on a FROM clause that is not met: one source or two, and with two a condition,
a time bound, an alias of the primary source, and a condition in the grammar. -/
inductive Refused (q : Query) (aliased : Bool) : List String → Fault → Prop
  | noSource : Refused q aliased [] .missingSource
  | tooMany {names : List String} (hnames : 2 < names.length) :
      Refused q aliased names (.tooManySources names.length)
  | noCondition (left right : String) (hjoin : q.join = none) :
      Refused q aliased [left, right] .missingJoinCondition
  | noBound (left right : String) (hjoin : q.join ≠ none) (hbound : ¬ q.HasBound) :
      Refused q aliased [left, right] .withinRequired
  | noAlias (left right : String) (hjoin : q.join ≠ none) (hbound : q.HasBound)
      (haliased : aliased = false) : Refused q aliased [left, right] .missingPrimaryAlias
  | badCondition (left right : String) {on : Lambda} {fault : Fault} (hjoin : q.join = some on)
      (hbound : q.HasBound) (haliased : aliased = true) (h : JoinFault on.params on.body fault) :
      Refused q aliased [left, right] fault

/-- All demands on a clause with two sources are met. -/
structure Joins (q : Query) (aliased : Bool) (on : Lambda) : Prop where
  join : q.join = some on
  bound : q.HasBound
  aliased : aliased = true
  body : JoinBody on.params on.body

variable {q : Query} {defaultWithin : Nat} {aliased : Bool}

lemma bound_of_hasBound (h : q.HasBound) :
    bound q defaultWithin = .ok ((q.within.filter (0 < ·)).getD defaultWithin) := by
  unfold bound
  cases hwithin : q.within.filter (0 < ·) with
  | some n => rfl
  | none =>
    have hallowed : q.forbidDefaultWithin = false := by
      rcases h with ⟨n, hn, hpos⟩ | hallowed
      · rw [hn, Option.filter_some, if_pos (decide_eq_true hpos)] at hwithin
        cases hwithin
      · exact hallowed
    rw [hallowed]
    rfl

lemma bound_of_not_hasBound (h : ¬ q.HasBound) :
    bound q defaultWithin = .error .withinRequired := by
  rw [Query.HasBound, not_or, Bool.not_eq_false] at h
  have hwithin : q.within.filter (0 < ·) = none := by
    rw [Option.filter_eq_none_iff]
    intro n hn hpos
    exact h.1 ⟨n, hn, of_decide_eq_true hpos⟩
  unfold bound
  rw [hwithin, h.2]
  rfl

/-- A clause over two sources. -/
lemma ofQuery_two {on : Lambda} (hjoin : q.join = some on) (left right : String) :
    ofQuery q [left, right] defaultWithin aliased =
      (bound q defaultWithin).bind fun within =>
        if aliased = false then .error .missingPrimaryAlias
        else (on.joinCondition "o" "i").map fun condition =>
          { left, aliased, join := some { right, within, condition } } := by
  unfold ofQuery
  rw [hjoin]
  cases bound q defaultWithin with
  | error fault => rfl
  | ok within =>
    cases aliased with
    | false => rfl
    | true =>
      change Except.bind (on.joinCondition "o" "i") _ = _
      cases on.joinCondition "o" "i" <;> rfl

/-- A clause over two sources that meets all demands is written. -/
lemma ofQuery_of_joins {on : Lambda} (h : Joins q aliased on) (left right : String) :
    ∃ condition, ofQuery q [left, right] defaultWithin aliased =
        .ok ⟨left, aliased, some ⟨right, (q.within.filter (0 < ·)).getD defaultWithin, condition⟩⟩ ∧
      JoinWritten on.params "o" "i" on.body condition := by
  obtain ⟨condition, htext, hwritten⟩ :=
    Expr.joinText_of_joinBody (s := ⟨on.params, "o", "i"⟩) h.body
  have hcondition : on.joinCondition "o" "i" = .ok condition := htext
  refine ⟨condition, ?_, hwritten⟩
  rw [ofQuery_two h.join, bound_of_hasBound h.bound, h.aliased, hcondition]
  rfl

lemma ofQuery_of_refused {names : List String} {fault : Fault} (h : Refused q aliased names fault) :
    ofQuery q names defaultWithin aliased = .error fault := by
  cases h with
  | noSource => rfl
  | tooMany hnames =>
    rcases names with _ | ⟨a, _ | ⟨b, _ | ⟨c, names⟩⟩⟩
    · simp at hnames
    · simp at hnames
    · simp at hnames
    · rfl
  | noCondition left right hjoin =>
    unfold ofQuery
    rw [hjoin]
  | noBound left right hjoin hbound =>
    obtain ⟨on, hon⟩ := Option.ne_none_iff_exists'.1 hjoin
    rw [ofQuery_two hon, bound_of_not_hasBound hbound]
    rfl
  | noAlias left right hjoin hbound haliased =>
    obtain ⟨on, hon⟩ := Option.ne_none_iff_exists'.1 hjoin
    rw [ofQuery_two hon, bound_of_hasBound hbound, haliased]
    rfl
  | @badCondition left right on fault hjoin hbound haliased hfault =>
    have hcondition : on.joinCondition "o" "i" = .error fault :=
      Expr.joinText_of_joinFault (s := ⟨on.params, "o", "i"⟩) hfault
    rw [ofQuery_two hjoin, bound_of_hasBound hbound, haliased, hcondition]
    rfl

/-- A clause that is written is not refused. -/
lemma not_refused_of_ok {names : List String} {clause : FromClause} {fault : Fault}
    (hok : ofQuery q names defaultWithin aliased = .ok clause) :
    ¬ Refused q aliased names fault := by
  intro hrefused
  have herror := @ofQuery_of_refused q defaultWithin aliased _ _ hrefused
  rw [hok] at herror
  cases herror

/-- A clause has one source, or two with all demands met, or misses a first one. -/
lemma joins_or_refused (q : Query) (aliased : Bool) (names : List String) :
    (∃ left, names = [left]) ∨
      (∃ left right on, names = [left, right] ∧ Joins q aliased on) ∨
      ∃ fault, Refused q aliased names fault := by
  rcases names with _ | ⟨left, _ | ⟨right, _ | ⟨third, names⟩⟩⟩
  · exact .inr (.inr ⟨_, .noSource⟩)
  · exact .inl ⟨left, rfl⟩
  · refine .inr ?_
    cases hjoin : q.join with
    | none => exact .inr ⟨_, .noCondition left right hjoin⟩
    | some on =>
      have hsome : q.join ≠ none := by simp [hjoin]
      by_cases hbound : q.HasBound
      · cases haliased : aliased with
        | false => exact .inr ⟨_, .noAlias left right hsome hbound rfl⟩
        | true =>
          rcases Expr.joinBody_or_joinFault on.params on.body with hbody | ⟨fault, hfault⟩
          · exact .inl ⟨left, right, on, rfl, hjoin, hbound, rfl, hbody⟩
          · exact .inr ⟨fault, .badCondition left right hjoin hbound rfl hfault⟩
      · exact .inr ⟨_, .noBound left right hsome hbound⟩
  · exact .inr (.inr ⟨_, .tooMany (by simp)⟩)

/-- A FROM clause is written exactly if there is one source, or if there are two, a condition in the
grammar, a time bound and an alias of the primary source.  Any other clause is refused for the first
demand that it does not meet.  A written clause has the given sources, and with two of them the time
bound of the query or else the default and the text of the condition, in which every column stands
behind `o` or `i` by the position of its parameter. -/
theorem ofQuery_iff (q : Query) (names : List String) (defaultWithin : Nat) (aliased : Bool) :
    ((∃ clause, ofQuery q names defaultWithin aliased = .ok clause) ↔
      (∃ left, names = [left]) ∨
        ∃ left right on, names = [left, right] ∧ Joins q aliased on) ∧
    (∀ fault, ofQuery q names defaultWithin aliased = .error fault ↔
      Refused q aliased names fault) ∧
    (∀ clause, ofQuery q names defaultWithin aliased = .ok clause →
      names = clause.left :: clause.join.toList.map JoinClause.right ∧ clause.aliased = aliased ∧
      ∀ j ∈ clause.join, ∃ on, q.join = some on ∧
        j.within = (q.within.filter (0 < ·)).getD defaultWithin ∧
        JoinWritten on.params "o" "i" on.body j.condition) := by
  rcases joins_or_refused q aliased names with ⟨left, rfl⟩ | ⟨left, right, on, rfl, hjoins⟩ |
      ⟨fault, hrefused⟩
  · -- a single source is always taken
    have hok : ofQuery q [left] defaultWithin aliased = .ok { left, aliased } := rfl
    rw [hok]
    refine ⟨iff_of_true ⟨_, rfl⟩ (.inl ⟨left, rfl⟩), fun fault => ?_, fun clause hclause => ?_⟩
    · exact iff_of_false (by simp) (not_refused_of_ok hok)
    · cases hclause
      exact ⟨rfl, rfl, by simp⟩
  · obtain ⟨condition, hok, hwritten⟩ :=
      @ofQuery_of_joins q defaultWithin aliased on hjoins left right
    rw [hok]
    refine ⟨iff_of_true ⟨_, rfl⟩ (.inr ⟨left, right, on, rfl, hjoins⟩), fun fault => ?_,
      fun clause hclause => ?_⟩
    · exact iff_of_false (by simp) (not_refused_of_ok hok)
    · cases hclause
      refine ⟨rfl, rfl, fun j hj => ?_⟩
      cases hj
      exact ⟨on, hjoins.join, rfl, hwritten⟩
  · have herror := @ofQuery_of_refused q defaultWithin aliased _ _ hrefused
    rw [herror]
    refine ⟨iff_of_false (by simp) ?_, fun fault' => ⟨?_, fun hrefused' => ?_⟩, by simp⟩
    · rintro (⟨left, rfl⟩ | ⟨left, right, on, rfl, hjoins⟩)
      · cases herror
      · obtain ⟨condition, hok, -⟩ := @ofQuery_of_joins q defaultWithin aliased on hjoins left right
        exact not_refused_of_ok hok hrefused
    · intro hfault
      cases hfault
      exact hrefused
    · rw [← herror]
      exact ofQuery_of_refused hrefused'

/-- Trades of quoted products, within a minute of the quote. -/
def quotedTrades : Query.Draft where
  sources := [{ typeName := "Trade" }, { typeName := "Quote" }]
  join := some ⟨[⟨"t", .record "Trade"⟩, ⟨"q", .record "Quote"⟩],
    .binary .equal (.member (.param ⟨"t", .record "Trade"⟩) "Symbol" .string false)
      (.member (.param ⟨"q", .record "Quote"⟩) "Product" .string false)⟩
  within := some 60

/-- The text of the condition; without an alias the clause is refused. -/
theorem ofQuery_quotedTrades :
    (∃ on, quotedTrades.join = some on ∧
      ofQuery (quotedTrades.build 0) ["Trade", "Quote"] 30 true =
        .ok ⟨"Trade", true, some ⟨"Quote", 60, "(o.Symbol = i.Product)"⟩⟩ ∧
      JoinWritten on.params "o" "i" on.body "(o.Symbol = i.Product)") ∧
    Refused (quotedTrades.build 0) false ["Trade", "Quote"] .missingPrimaryAlias := by
  have hok : ofQuery (quotedTrades.build 0) ["Trade", "Quote"] 30 true =
      .ok ⟨"Trade", true, some ⟨"Quote", 60, "(o.Symbol = i.Product)"⟩⟩ := by decide
  obtain ⟨-, -, hwritten⟩ := ofQuery_iff (quotedTrades.build 0) ["Trade", "Quote"] 30 true
  obtain ⟨on, hon, -, hcondition⟩ := (hwritten _ hok).2.2 _ rfl
  obtain ⟨-, hrefused, -⟩ := ofQuery_iff (quotedTrades.build 0) ["Trade", "Quote"] 30 false
  exact ⟨⟨on, hon, hok, hcondition⟩, (hrefused _).1 (by decide)⟩

end FromClause

end StreamQuery
