import StreamQuery.Proofs.AliasInserted
import StreamQuery.Proofs.ClauseForms
import StreamQuery.Proofs.LexicalSafety
import StreamQuery.Proofs.Literals

/-!
# Forcing the primary alias

A query over a single stream is written with the alias of its source or without it.  The alias is
dropped again when the statement is assembled, so the two statements have the same WHERE, GROUP BY
and HAVING clauses (`forced_alias_same_clauses`).

There are two exceptions.  A string constant with a placeholder in it takes up the text of a later
argument of a template, and the alias that comes with it stays inside the literal.  And a row filter
with two parameters of one name reads its columns through the alias of either.
-/

namespace StreamQuery

open Text Template List

/-! ## Alias tables -/

/-- The second table has the primary alias for some parameters without alias in the first.  Aliases
hold no braces. -/
structure AliasTable.AddsPrimary (t t' : AliasTable) : Prop where
  alias? : ∀ param, t'.alias? param = t.alias? param ∨
    t.alias? param = none ∧ t'.alias? param = some primaryAlias
  braceFree : ∀ param aliasName, t.alias? param = some aliasName → '\x7b' ∉ aliasName.toList

namespace AliasTable

lemma forSources_addsPrimary (params : List Param) :
    AddsPrimary (forSources params 1 false) (forSources params 1 true) := by
  cases params with
  | nil => exact ⟨fun _ => .inl rfl, fun _ _ h => by cases h⟩
  | cons p rest =>
    refine ⟨fun param => ?_, fun _ _ h => by cases h⟩
    have hentries : forSources (p :: rest) 1 true = ⟨[(p.name, primaryAlias)]⟩ := rfl
    have hnone : (forSources (p :: rest) 1 false).alias? param = none := rfl
    by_cases hp : p.name = param
    · refine .inr ⟨hnone, ?_⟩
      simp [hentries, alias?, hp]
    · refine .inl ?_
      rw [hnone]
      simp [hentries, alias?, hp]

lemma forFilter_addsPrimary {params : List Param} (h : ((params.take 2).map Param.name).Nodup) :
    AddsPrimary (forFilter params false) (forFilter params true) := by
  rcases params with _ | ⟨p, _ | ⟨q, rest⟩⟩
  · exact ⟨fun _ => .inl rfl, fun _ _ h => by cases h⟩
  · exact forSources_addsPrimary [p]
  · have hfalse : forFilter (p :: q :: rest) false = ⟨[(q.name, joinAlias)]⟩ := rfl
    have htrue : forFilter (p :: q :: rest) true =
        ⟨[(p.name, primaryAlias), (q.name, joinAlias)]⟩ := rfl
    have hne : p.name ≠ q.name := by simpa using h
    refine ⟨fun param => ?_, fun param aliasName hparam => ?_⟩
    · by_cases hp : p.name = param
      · have hq : q.name ≠ param := fun hq => hne (hp.trans hq.symm)
        refine .inr ⟨?_, ?_⟩
        · simp [hfalse, alias?, hq]
        · simp [htrue, alias?, hp]
      · refine .inl ?_
        simp [hfalse, htrue, alias?, hp]
    · have hjoin : aliasName = joinAlias := by
        rw [hfalse, alias?] at hparam
        obtain ⟨entry, hentry, rfl⟩ := Option.map_eq_some_iff.1 hparam
        rw [mem_singleton.1 (mem_of_find?_eq_some hentry)]
      rw [hjoin]
      decide

end AliasTable

/-! ## Columns -/

/-- Two texts without placeholders. -/
def BothPlaceholderFree (a b : List Char) : Prop :=
  PlaceholderFree a ∧ PlaceholderFree b

lemma placeholderFree_formRelation : FormRelation BothPlaceholderFree where
  placeholderFree _ _ h := h
  plain s hs := by
    have hfree : PlaceholderFree s := .of_braceFree fun hmem =>
      absurd (all_eq_true.1 hs _ hmem) (by decide)
    exact ⟨hfree, hfree⟩
  fill t as bs ht _ h := by
    obtain ⟨hleft, -⟩ := (forall₂_and_left as bs).1 h
    have hswap : List.Forall₂ (fun b a => PlaceholderFree b ∧ PlaceholderFree a) bs as :=
      h.flip.imp fun _ _ hab => hab.symm
    obtain ⟨hright, -⟩ := (forall₂_and_left bs as).1 hswap
    exact ⟨placeholderFree_fill hleft ht.braceFree ht.spaced,
      placeholderFree_fill hright ht.braceFree ht.spaced⟩

namespace AliasTable.AddsPrimary

variable {t t' : AliasTable} (h : AddsPrimary t t')

include h

/-- A column is related to the column under the other table. -/
lemma qualified_aliased (m : Member) {name : String} (hname : IsColumnName name.toList) :
    OnTexts AliasedPart (qualified (t.ofMember? m) name) (qualified (t'.ofMember? m) name) := by
  unfold ofMember?
  cases m.root? with
  | none => exact .refl _
  | some p =>
    rw [Option.bind_some, Option.bind_some]
    rcases h.alias? p.name with hsame | ⟨hnone, hprimary⟩
    · rw [hsame]
      exact .refl _
    · have htext : (qualified (some primaryAlias) name).toList = 'o' :: '.' :: name.toList := by
        simp [qualified, primaryAlias]
      unfold OnTexts
      rw [hnone, hprimary, htext]
      exact .column hname

/-- Columns hold no placeholders. -/
lemma qualified_placeholderFree (m : Member) {name : String} (hname : '\x7b' ∉ name.toList) :
    OnTexts BothPlaceholderFree (qualified (t.ofMember? m) name)
      (qualified (t'.ofMember? m) name) := by
  have hbehind : ∀ aliasName : String, '\x7b' ∉ aliasName.toList →
      PlaceholderFree (aliasName ++ "." ++ name).toList := by
    intro aliasName halias
    apply PlaceholderFree.of_braceFree
    simp [halias, hname]
  have hbare : PlaceholderFree name.toList := .of_braceFree hname
  unfold ofMember?
  cases m.root? with
  | none => exact ⟨hbare, hbare⟩
  | some p =>
    rw [Option.bind_some, Option.bind_some]
    have hleft : PlaceholderFree (qualified (t.alias? p.name) name).toList := by
      cases hp : t.alias? p.name with
      | none => exact hbare
      | some aliasName => exact hbehind aliasName (h.braceFree _ _ hp)
    rcases h.alias? p.name with hsame | ⟨hnone, hprimary⟩
    · rw [hsame]
      exact ⟨hleft, hleft⟩
    · rw [hprimary]
      exact ⟨hleft, hbehind primaryAlias (by decide)⟩

end AliasTable.AddsPrimary

/-- The members of an expression have names of letters, digits and underscores. -/
def Expr.HasColumnNames (e : Expr) : Prop :=
  ∀ m : Member, m.toExpr ∈ e.nodes → IsColumnName m.name.toList

/-- Where a template is filled, no placeholder stands in a constant or parameter name it is filled
with. -/
def Dialect.FillsSafely (d : Dialect) (e : Expr) : Prop :=
  ∀ method receiver args, Expr.call method receiver args ∈ e.nodes → d.fillsTemplate method = true →
    (∀ p, Expr.param p ∈ (Expr.call method receiver args).nodes → PlaceholderFree p.name.toList) ∧
      ∀ value, Expr.const value ∈ (Expr.call method receiver args).nodes →
        ∀ s ∈ value.strings, PlaceholderFree s.toList

variable {d : Dialect} {s : List Char} {e : Expr}

lemma isPrefix_of_doubleQuotes {part : List Char} (hpart : '\'' ∉ part)
    (h : part <+: Constant.doubleQuotes s ++ ['\'']) : part <+: s := by
  induction part generalizing s with
  | nil => exact nil_prefix
  | cons p part ih =>
    rw [mem_cons, not_or] at hpart
    have hmark : ∀ rest, ¬ p :: part <+: '\'' :: rest := fun rest hrest =>
      hpart.1 (cons_prefix_cons.1 hrest).1.symm
    cases s with
    | nil => exact absurd h (hmark [])
    | cons c s =>
      unfold Constant.doubleQuotes at h
      split at h
      · exact absurd h (hmark _)
      · rw [cons_append, cons_prefix_cons] at h
        exact cons_prefix_cons.2 ⟨h.1, ih hpart.2 h.2⟩

lemma Template.PlaceholderFree.mark (hs : PlaceholderFree s) : PlaceholderFree ('\'' :: s) := by
  intro i hinside
  rcases infix_cons_iff.1 hinside with hlead | hinside
  · rw [toList_placeholder, cons_prefix_cons] at hlead
    exact absurd hlead.1 (by decide)
  · exact hs i hinside

lemma Template.PlaceholderFree.doubleQuotes (hs : PlaceholderFree s) :
    PlaceholderFree (Constant.doubleQuotes s ++ ['\'']) := by
  induction s with
  | nil => exact .of_braceFree (by decide)
  | cons c s ih =>
    have hrest : PlaceholderFree (Constant.doubleQuotes s ++ ['\'']) :=
      ih fun i hinside => hs i (hinside.trans (suffix_cons c s).isInfix)
    by_cases hc : c = '\''
    · rw [hc, Constant.doubleQuotes_quote]
      exact hrest.mark.mark
    · have hchars := Constant.doubleQuotes_cons hc s
      intro i hinside
      rw [hchars, cons_append] at hinside
      rcases infix_cons_iff.1 hinside with hlead | hinside
      · have hplain : '\'' ∉ (FunctionRule.placeholder i).toList := fun hmem =>
          absurd (mem_placeholder hmem) (by decide)
        rw [← cons_append, ← hchars] at hlead
        exact hs i (isPrefix_of_doubleQuotes hplain hlead).isInfix
      · exact hrest i hinside

lemma placeholderFree_quoted {s : String} (hs : PlaceholderFree s.toList) :
    PlaceholderFree (Constant.quoted s).toList := by
  rw [Constant.toList_quoted]
  exact hs.doubleQuotes.mark

/-- Writes a column for every member. -/
def MemberText.columns (column : Member → String) : MemberText := fun m _ => .ok (column m)

/-- The texts that a template is safely filled with hold no placeholders, in two ways of writing
columns. -/
lemma Dialect.FillsSafely.placeholderFreeTexts (hd : d.catalog.WritesForms)
    (hfills : d.FillsSafely e) {column column' : Member → String}
    (hfree : ∀ m : Member, m.toExpr ∈ e.nodes → OnTexts BothPlaceholderFree (column m) (column' m))
    {method : Method} {receiver : Option Expr} {args : List Expr}
    (hsub : ∀ x ∈ (Expr.call method receiver args).nodes, x ∈ e.nodes)
    (htemplate : d.fillsTemplate method) {as bs : List String}
    (has : (CallTexts.scalars d (.columns column) method receiver args).allTexts = .ok as)
    (hbs : (CallTexts.scalars d (.columns column') method receiver args).allTexts = .ok bs) :
    PlaceholderFreeTexts as ∧ PlaceholderFreeTexts bs := by
  obtain ⟨hparams, hstrings⟩ := hfills method receiver args
    (hsub _ (mem_cons_self ..)) htemplate
  have hleaves : LeavesInStep BothPlaceholderFree (.columns column) (.columns column')
      (Expr.call method receiver args).nodes := by
    refine ⟨fun p hp => ?_, fun value hvalue s hs => ?_, fun m hm _ _ _ => ?_⟩
    · exact ⟨hparams p hp, hparams p hp⟩
    · have hs := placeholderFree_quoted (hstrings value hvalue s hs)
      exact ⟨hs, hs⟩
    · exact .ok (hfree m (hsub _ hm))
  have hparts : PartsInStep BothPlaceholderFree d _ _ _ :=
    placeholderFree_formRelation.parts hleaves
  have hreceiver := Expr.scalar?_inStep placeholderFree_formRelation.toFillRelation hd receiver
    hparts.tail.left
  have hargs := Expr.scalars_inStep placeholderFree_formRelation.toFillRelation hd args
    hparts.tail.right
  have hmatches : CallTexts.Matches BothPlaceholderFree
      (.scalars d (.columns column) method receiver args)
      (.scalars d (.columns column') method receiver args) := ⟨rfl, rfl, rfl, hreceiver, hargs⟩
  exact placeholderFree_formRelation.placeholderFreeTexts (hmatches.allTexts.related has hbs)

/-- Two ways of writing columns that differ in aliases are in step. -/
lemma partsInStep_of_columns (hd : d.catalog.WritesForms) (hfills : d.FillsSafely e)
    {column column' : Member → String}
    (haliased : ∀ m : Member, m.toExpr ∈ e.nodes → OnTexts AliasedPart (column m) (column' m))
    (hfree : ∀ m : Member, m.toExpr ∈ e.nodes → OnTexts BothPlaceholderFree (column m) (column' m))
    :
    PartsInStep AliasedPart d (.columns column) (.columns column') e.nodes where
  param _ _ := .refl _
  string _ _ _ _ := .refl _
  member m hm _ _ _ := .ok (haliased m hm)
  call _ _ _ hsub htemplate _ _ _ has hbs :=
    hfills.placeholderFreeTexts hd hfree hsub htemplate has hbs

lemma IsColumnName.braceFree {name : List Char} (h : IsColumnName name) : '\x7b' ∉ name :=
  fun hmem => absurd (h.2 _ hmem) (by decide)

/-- Row filters under tables that differ in the primary alias are in step. -/
lemma filterInStep_of_addsPrimary (hd : d.catalog.WritesForms) {t t' : AliasTable}
    (h : t.AddsPrimary t') (hnames : e.HasColumnNames) (hfills : d.FillsSafely e) :
    FilterInStep AliasedPart d t t' e.nodes :=
  partsInStep_of_columns hd hfills (fun m hm => h.qualified_aliased m (hnames m hm))
    fun m hm => h.qualified_placeholderFree m (hnames m hm).braceFree

/-- Grouping keys under tables that differ in the primary alias are in step. -/
lemma keysInStep_of_addsPrimary (hd : d.catalog.WritesForms) {t t' : AliasTable}
    (h : t.AddsPrimary t') (hnames : e.HasColumnNames) (hfills : d.FillsSafely e) :
    KeysInStep AliasedPart d t t' e.nodes := by
  have hidentifier : ∀ {name : String}, IsColumnName name.toList →
      IsColumnName (identifier name).toList := by
    intro name hname
    have hne : name ≠ "" := by
      rintro rfl
      exact hname.1 rfl
    have hid := isIdentifier_identifier hne
    refine ⟨?_, fun c hc => isNamePart_of_isCapital (isCapital_of_isIdentifier hid c hc)⟩
    rw [Ne, String.toList_eq_nil_iff]
    exact ne_empty_of_isIdentifier hid
  refine partsInStep_of_columns hd hfills (fun m hm => ?_) fun m hm => ?_
  · unfold GroupKeys.columnText
    split
    · exact h.qualified_aliased m (hidentifier (hnames m hm))
    · exact .refl _
  · unfold GroupKeys.columnText
    split
    · exact h.qualified_placeholderFree m (hidentifier (hnames m hm)).braceFree
    · have hbare := PlaceholderFree.of_braceFree (hnames m hm).braceFree
      exact ⟨hbare, hbare⟩

/-! ## Statements over a single stream -/

lemma styleKeys_plain {bindings : List KeyBinding} (h : ∀ b ∈ bindings, b.style = .plain)
    (clause : String) : styleKeys bindings clause = clause := by
  have hfold : bindings.foldl (fun clause b => b.apply clause) clause.toList = clause.toList := by
    induction bindings with
    | nil => rfl
    | cons b rest ih =>
      have hb : b.apply clause.toList = clause.toList := by
        rw [KeyBinding.apply, h b (mem_cons_self ..)]
        rfl
      rw [foldl_cons, hb]
      exact ih (forall_mem_cons.1 h).2
  rw [styleKeys, hfold, String.ofList_toList]

/-- The only source of a statement, under its name there. -/
def Source.onlyScope (source : Source) (name : String) : AliasScope where
  aliasName := primaryAlias
  source := name
  columns := source.identifiers.members.filter (· != "")

/-- Over a single source, edits style its keys and drop its alias. -/
lemma Compiler.edit_only {c : Compiler} {q : Query} {p : CreatePlan} {memo : Memo}
    {raw : RawClauses} (h : (c.rawClauses q p memo).1 = .ok raw) {source : Source}
    (hsource : q.sources = [source]) (keyPath : KeyPathStyle) (body : String) :
    raw.edit q keyPath body =
      AliasScope.dropFromClause [source.onlyScope (p.target.naming source)]
        (styleKeys (KeyBinding.ofQuery q keyPath) body) := by
  obtain ⟨hfrom, -⟩ := c.parts_of_rawClauses q h
  rw [Compiler.source, hsource] at hfrom
  have hraw : raw.source = { left := p.target.naming source, aliased := q.primaryAlias } :=
    (Except.ok.inj hfrom).symm
  rw [RawClauses.edit, hraw, hsource]
  rfl

/-- Over a single stream, edits drop its alias. -/
lemma Compiler.edit_single {c : Compiler} {q : Query} {p : CreatePlan} {memo : Memo}
    {raw : RawClauses} (h : (c.rawClauses q p memo).1 = .ok raw) {source : Source}
    (hsource : q.sources = [source]) (hstream : source.isTable = false) :
    raw.edit q .plain = AliasScope.dropFromClause [source.onlyScope (p.target.naming source)] := by
  funext body
  have hbindings : ∀ b ∈ KeyBinding.ofQuery q .plain, b.style = .plain := by
    intro b hb
    rw [KeyBinding.ofQuery, hsource] at hb
    rw [mem_singleton.1 hb, KeyBinding.ofSource, hstream]
    rfl
  rw [Compiler.edit_only h hsource, styleKeys_plain hbindings]

/-- A clause written in two ways is the same after an edit that merges them. -/
lemma map_eq_of_mapM {clause : Option Lambda} {f g : Lambda → Except Fault String}
    {edit : String → String} {a b : Option String}
    (hedit : ∀ l ∈ clause, ∀ x y, f l = .ok x → g l = .ok y → edit x = edit y)
    (ha : clause.mapM f = .ok a) (hb : clause.mapM g = .ok b) : a.map edit = b.map edit := by
  cases clause with
  | none =>
    cases ha
    cases hb
    rfl
  | some l =>
    obtain ⟨x, hx, rfl⟩ := Compiler.ok_of_map_ok ha
    obtain ⟨y, hy, rfl⟩ := Compiler.ok_of_map_ok hb
    exact congrArg some (hedit l rfl x y hx hy)

namespace Compiler

section

variable {c : Compiler} (hd : c.dialect.catalog.WritesForms) {q q' : Query} {scope : AliasScope}
  (hscope : scope.aliasName = primaryAlias) {a b : Option String}

include hd hscope

/-- Row filters are the same with and without the primary alias once it is dropped. -/
lemma filter_dropped (hfilter : q'.filter = q.filter)
    (hpredicate : ∀ predicate ∈ q.filter, predicate.body.HasColumnNames ∧
      c.dialect.FillsSafely predicate.body ∧ ((predicate.params.take 2).map Param.name).Nodup)
    (ha : c.filter q false = .ok a) (hb : c.filter q' true = .ok b) :
    a.map (AliasScope.dropFromClause [scope]) = b.map (AliasScope.dropFromClause [scope]) := by
  unfold filter at ha hb
  rw [hfilter] at hb
  refine map_eq_of_mapM (fun predicate hmem x y hx hy => ?_) ha hb
  obtain ⟨hnames, hfills, hparams⟩ := hpredicate predicate hmem
  have hstep := filterInStep_of_addsPrimary hd (AliasTable.forFilter_addsPrimary hparams) hnames
    hfills
  exact dropFromClause_aliasedPart hscope
    (Lambda.filterBody_related aliased_fillRelation hd hstep hx hy)

/-- Over a single source, grouping keys are the same with and without alias once it is dropped. -/
lemma groupBy_dropped (hgroupBy : q'.groupBy = q.groupBy) {source : Source}
    (hsource : q.sources = [source]) (hsource' : q'.sources = [source])
    (hkey : ∀ key ∈ q.groupBy, key.body.HasColumnNames ∧ c.dialect.FillsSafely key.body)
    (ha : c.groupBy q false = .ok a) (hb : c.groupBy q' true = .ok b) :
    a.map (AliasScope.dropFromClause [scope]) = b.map (AliasScope.dropFromClause [scope]) := by
  unfold groupBy sourceAliases at ha hb
  rw [hsource] at ha
  rw [hsource', hgroupBy] at hb
  refine map_eq_of_mapM (fun key hmem x y hx hy => ?_) ha hb
  obtain ⟨hnames, hfills⟩ := hkey key hmem
  have hstep := keysInStep_of_addsPrimary hd (AliasTable.forSources_addsPrimary key.params) hnames
    hfills
  exact dropFromClause_aliasedPart hscope
    (Lambda.groupBody_related aliased_fillRelation hd hstep hx hy)

end

/-- A created text is that of a statement assembled from written clauses. -/
lemma assemble_of_create {c : Compiler} {scope : Scope} {q : Query} {target : CreateTarget}
    {memo : Memo} {sql : String} (h : (c.create scope q target memo).1 = .ok sql) :
    ∃ raw, (c.rawClauses q (createPlan q target) memo).1 = .ok raw ∧
      (c.assemble q (createPlan q target) memo).1 = .ok ((createPlan q target).statement q raw) ∧
      ((createPlan q target).statement q raw).sql = sql := by
  unfold create at h
  split at h
  · cases h
  · obtain ⟨raw, hraw, hsql⟩ := c.raw_of_assemble q h
    refine ⟨raw, hraw, ?_, hsql⟩
    change (c.rawClauses q (createPlan q target) memo).1.map _ = _
    rw [hraw]
    rfl

end Compiler

/-- The draft with the primary alias forced on or off. -/
def Query.Draft.withPrimaryAlias (d : Query.Draft) (forced : Bool) : Query.Draft :=
  { d with primaryAlias := some forced }

/-- If a query over a single stream compiles with the primary alias forced on and with it forced
off, both statements have the same WHERE, GROUP BY and HAVING clauses. The members of filter and
grouping key must have names of letters, digits and underscores, no placeholder may stand in what a
template is filled with, and the first two parameters of the filter must have different names. -/
theorem forced_alias_same_clauses (c : Compiler) (hcatalog : c.catalog = Catalog.builtin)
    (d : Query.Draft) (source : Source) (hsource : d.sources = [source])
    (hstream : source.kind = .stream)
    (hfilter : ∀ predicate ∈ d.filter, predicate.body.HasColumnNames ∧
      c.dialect.FillsSafely predicate.body ∧ ((predicate.params.take 2).map Param.name).Nodup)
    (hgroupBy : ∀ key ∈ d.groupBy, key.body.HasColumnNames ∧ c.dialect.FillsSafely key.body)
    (target : CreateTarget) (hstyle : target.options.keyPath = .plain)
    (id id' : Nat) (scope scope' : Scope) (memo memo' : Memo) (sql sql' : String)
    (h : (c.create scope ((d.withPrimaryAlias false).build id) target memo).1 = .ok sql)
    (h' : (c.create scope' ((d.withPrimaryAlias true).build id') target memo').1 = .ok sql') :
    ∃ s s' : CreateStatement,
      (c.assemble ((d.withPrimaryAlias false).build id)
        (Compiler.createPlan ((d.withPrimaryAlias false).build id) target) memo).1 = .ok s ∧
      (c.assemble ((d.withPrimaryAlias true).build id')
        (Compiler.createPlan ((d.withPrimaryAlias true).build id') target) memo').1 = .ok s' ∧
      s.sql = sql ∧ s'.sql = sql' ∧ s.clauses.filter = s'.clauses.filter ∧
      s.clauses.groupBy = s'.clauses.groupBy ∧ s.clauses.having = s'.clauses.having := by
  obtain ⟨raw, hraw, hs, hsql⟩ := Compiler.assemble_of_create h
  obtain ⟨raw', hraw', hs', hsql'⟩ := Compiler.assemble_of_create h'
  refine ⟨_, _, hs, hs', hsql, hsql', ?_⟩
  have hd : c.dialect.catalog.WritesForms := by
    rw [show c.dialect.catalog = Catalog.builtin from hcatalog]
    exact Catalog.writesForms_builtin
  have htable : source.isTable = false := by
    rw [Source.isTable, hstream]
    rfl
  have hedit : raw.edit ((d.withPrimaryAlias false).build id) .plain =
      AliasScope.dropFromClause [source.onlyScope (target.naming source)] :=
    Compiler.edit_single hraw hsource htable
  have hedit' : raw'.edit ((d.withPrimaryAlias true).build id') .plain =
      AliasScope.dropFromClause [source.onlyScope (target.naming source)] :=
    Compiler.edit_single hraw' hsource htable
  obtain ⟨-, hkeys, -, hwhere, hhaving⟩ := c.parts_of_rawClauses _ hraw
  obtain ⟨-, hkeys', -, hwhere', hhaving'⟩ := c.parts_of_rawClauses _ hraw'
  have hscope : (source.onlyScope (target.naming source)).aliasName = primaryAlias := rfl
  have hfilters := Compiler.filter_dropped hd hscope rfl hfilter hwhere hwhere'
  have hgroups := Compiler.groupBy_dropped hd hscope rfl hsource hsource hgroupBy hkeys hkeys'
  have hhavings : raw.having = raw'.having := Except.ok.inj (hhaving.symm.trans hhaving')
  refine ⟨?_, ?_, ?_⟩
  · change raw.filter.map (raw.edit _ target.options.keyPath) =
      raw'.filter.map (raw'.edit _ target.options.keyPath)
    rw [hstyle, hedit, hedit']
    exact hfilters
  · change (raw.grouping _ target.options.keyPath ((Compiler.createPlan _ target).partition? _)).1 =
      (raw'.grouping _ target.options.keyPath ((Compiler.createPlan _ target).partition? _)).1
    unfold RawClauses.grouping
    rw [hstyle, hedit, hedit']
    dsimp only
    rw [hgroups]
    rfl
  · change raw.having.map (raw.edit _ target.options.keyPath) =
      raw'.having.map (raw'.edit _ target.options.keyPath)
    rw [hstyle, hedit, hedit', hhavings]

/-- The rows named by the first characters of a reference-like constant. -/
def namedRows : Query.Draft where
  sources := [{ typeName := "T" }]
  filter := some
    { params := [⟨"x", .unknown⟩]
      body := .binary .equal (.member (.param ⟨"x", .unknown⟩) "Name" .string false)
        (.call ⟨"Left", .onType, .string, none⟩ none
          [.const (.string "o.N"), .member (.param ⟨"x", .unknown⟩) "N" .unknown false]) }
  groupBy := some
    { params := [⟨"x", .unknown⟩], body := .member (.param ⟨"x", .unknown⟩) "Id" .string true }

/-- The filter of the query meets the conditions. -/
lemma namedRows_filter : ∀ predicate ∈ namedRows.filter, predicate.body.HasColumnNames ∧
    Dialect.FillsSafely (Compiler.dialect {}) predicate.body ∧
    ((predicate.params.take 2).map Param.name).Nodup := by
  rintro predicate ⟨⟩
  refine ⟨fun m hm => ?_, fun method receiver args hcall _ => ?_, by simp⟩
  · obtain ⟨-, hname, -⟩ | ⟨-, hname, -⟩ : (_ ∧ m.name = "Name" ∧ _) ∨ _ ∧ m.name = "N" ∧ _ := by
      simpa [Expr.nodes, Expr.nodesOf, Expr.nodesOf?, Member.toExpr] using hm
    · rw [hname]
      decide
    · rw [hname]
      decide
  · obtain ⟨rfl, rfl, rfl⟩ : method = _ ∧ receiver = _ ∧ args = _ := by
      simpa [Expr.nodes, Expr.nodesOf, Expr.nodesOf?] using hcall
    refine ⟨fun p hp => ?_, fun value hvalue s hs => ?_⟩
    · obtain rfl : p = ⟨"x", .unknown⟩ := by
        simpa [Expr.nodes, Expr.nodesOf, Expr.nodesOf?] using hp
      exact .of_braceFree (by decide)
    · obtain rfl : value = .string "o.N" := by
        simpa [Expr.nodes, Expr.nodesOf, Expr.nodesOf?] using hvalue
      obtain rfl := mem_singleton.1 hs
      exact .of_braceFree (by decide)

lemma namedRows_groupBy : ∀ key ∈ namedRows.groupBy, key.body.HasColumnNames ∧
    Dialect.FillsSafely (Compiler.dialect {}) key.body := by
  rintro key ⟨⟩
  refine ⟨fun m hm => ?_, fun method receiver args hcall _ => ?_⟩
  · obtain ⟨-, hname, -⟩ : _ ∧ m.name = "Id" ∧ _ := by
      simpa [Expr.nodes, Member.toExpr] using hm
    rw [hname]
    decide
  · simp [Expr.nodes] at hcall

/-- With the alias and without it, the constant loses what looks like the alias. -/
theorem forced_alias_same_clauses_namedRows :
    ((Compiler.create {} ⟨0⟩ ((namedRows.withPrimaryAlias false).build 0) { name := "c" } {}).1 =
        .ok ("CREATE TABLE IF NOT EXISTS c WITH (KAFKA_TOPIC='c', VALUE_FORMAT='AVRO') AS\n" ++
          "SELECT *\nFROM T\nWHERE (Name = SUBSTRING('N', 1, N))\nGROUP BY ID\nEMIT CHANGES;") ∧
      (Compiler.create {} ⟨1⟩ ((namedRows.withPrimaryAlias true).build 1) { name := "c" } {}).1 =
        .ok ("CREATE TABLE IF NOT EXISTS c WITH (KAFKA_TOPIC='c', VALUE_FORMAT='AVRO') AS\n" ++
          "SELECT *\nFROM T o\nWHERE (Name = SUBSTRING('N', 1, N))\nGROUP BY ID\nEMIT CHANGES;")) ∧
      ∃ s s' : CreateStatement,
        (Compiler.assemble {} ((namedRows.withPrimaryAlias false).build 0)
          (Compiler.createPlan ((namedRows.withPrimaryAlias false).build 0) { name := "c" }) {}).1 =
            .ok s ∧
        (Compiler.assemble {} ((namedRows.withPrimaryAlias true).build 1)
          (Compiler.createPlan ((namedRows.withPrimaryAlias true).build 1) { name := "c" }) {}).1 =
            .ok s' ∧
        s.clauses.filter = s'.clauses.filter ∧ s.clauses.groupBy = s'.clauses.groupBy ∧
        s.clauses.having = s'.clauses.having := by
  refine (and_iff_left_of_imp fun htexts => ?_).2 (by decide +kernel)
  obtain ⟨s, s', hs, hs', -, -, hsame⟩ := forced_alias_same_clauses {} rfl namedRows
    { typeName := "T" } rfl rfl namedRows_filter namedRows_groupBy { name := "c" } rfl 0 1 ⟨0⟩ ⟨1⟩
    {} {} _ _ htexts.1 htexts.2
  exact ⟨s, s', hs, hs', hsame⟩

end StreamQuery
