import StreamQuery.Proofs.AliasEdits
import StreamQuery.Proofs.TextEdits
import StreamQuery.Statement.Run

/-!
# String constants in statements

A string constant is written into its clause as a literal, and then the clause and the whole
statement are edited as texts.  The edits take no account of literals: a literal that holds the name
of a key column, an alias, a source or an emit mode is edited like the text around it.

`Composition` is what a statement is made of.  `Compiler.composes_of_run` finds it for every text
that a compilation returns, `Composition.text_literal` says what becomes of a literal of a clause,
and `literal_in_statement_iff` puts the two together: a constant is in the statement, at its place,
exactly if the edits leave its literal alone as it is.  The query `keyedRows` has a constant that is
lost.
-/

namespace StreamQuery

open List Text

/-! ## The place of a clause -/

namespace Clauses

/-- The body of a clause. -/
def body? (c : Clauses) : RowClause → Option String
  | .select => some c.select
  | .filter => c.filter
  | .having => c.having

/-- The start of a clause on a line of its own. -/
def opening (keyword : String) : String :=
  "\n" ++ keyword ++ " "

/-- The clauses from SELECT up to the body of a clause. -/
def upTo (c : Clauses) : RowClause → String
  | .select => "SELECT "
  | .filter => "SELECT " ++ c.select ++ "\n" ++ c.source ++ opening "WHERE"
  | .having =>
    "SELECT " ++ c.select ++ "\n" ++ c.source ++ line "WHERE" c.filter ++
      line "GROUP BY" c.groupBy ++ opening "HAVING"

lemma sql_split (c : Clauses) {clause : RowClause} {body : String}
    (h : c.body? clause = some body) : ∃ tail, c.sql = c.upTo clause ++ body ++ tail := by
  have hline : ∀ keyword, line keyword (some body) = opening keyword ++ body := fun _ => rfl
  cases clause with
  | select =>
    cases h
    refine ⟨"\n" ++ c.source ++ line "WHERE" c.filter ++ line "GROUP BY" c.groupBy ++
      line "HAVING" c.having ++ "\nEMIT CHANGES;", ?_⟩
    unfold sql upTo
    simp only [String.append_assoc]
  | filter =>
    have hfilter : c.filter = some body := h
    refine ⟨line "GROUP BY" c.groupBy ++ line "HAVING" c.having ++ "\nEMIT CHANGES;", ?_⟩
    unfold sql upTo
    rw [hfilter, hline]
    simp only [String.append_assoc]
  | having =>
    have hhaving : c.having = some body := h
    refine ⟨"\nEMIT CHANGES;", ?_⟩
    unfold sql upTo
    rw [hhaving, hline]
    simp only [String.append_assoc]

end Clauses

/-- A statement up to the body of a clause. -/
def CreateStatement.upTo (s : CreateStatement) (clause : RowClause) : String :=
  "CREATE " ++ s.kind.keyword ++ " IF NOT EXISTS " ++ s.name ++ " " ++ s.sink.sql ++ " AS\n" ++
    s.clauses.upTo clause

/-- A statement is what is before a clause body, the body, and the rest. -/
lemma CreateStatement.sql_split (s : CreateStatement) {clause : RowClause} {body : String}
    (h : s.clauses.body? clause = some body) : ∃ tail, s.sql = s.upTo clause ++ body ++ tail := by
  obtain ⟨tail, htail⟩ := s.clauses.sql_split h
  refine ⟨tail, ?_⟩
  unfold sql upTo
  rw [htail]
  simp only [String.append_assoc]

/-! ## What a statement is made of -/

/-- What a statement is made of: a plan, the clauses as their writers leave them, and the edits of
the finished text. -/
structure Composition where
  plan : CreatePlan
  raw : RawClauses
  edits : List TextEdit

namespace Composition

/-- The text of the statement. -/
def text (d : Composition) (q : Query) : List Char :=
  TextEdit.runAll d.edits (d.plan.statement q d.raw).sql.toList

/-- The edit of a clause. -/
def clauseEdit (d : Composition) (q : Query) (clause : RowClause) : List Char → List Char :=
  overChars (d.raw.editOf q d.plan.target.options.keyPath clause)

/-- The unfinished statement up to a literal that follows `pre` in a clause. -/
def before (d : Composition) (q : Query) (clause : RowClause) (pre : List Char) : List Char :=
  ((d.plan.statement q d.raw).upTo clause).toList ++
    (d.clauseEdit q clause (pre ++ ['\''])).dropLast

/-- The statement up to a literal that follows `pre` in a clause. -/
def place (d : Composition) (q : Query) (clause : RowClause) (pre : List Char) : List Char :=
  TextEdit.beforeAll d.edits (d.before q clause pre)

/-- What the statement has for a literal that follows `pre` in a clause. -/
def literal (d : Composition) (q : Query) (clause : RowClause) (pre lit : List Char) : List Char :=
  TextEdit.literalAll d.edits (d.before q clause pre) (d.clauseEdit q clause lit)

/-- A literal that each edit leaves alone stays, wherever it stands. -/
lemma literal_of_kept (d : Composition) (q : Query) (clause : RowClause) (pre : List Char)
    {lit : List Char} (hclause : d.clauseEdit q clause lit = lit)
    (hkept : ∀ e ∈ d.edits, e.run lit = lit) : d.literal q clause pre lit = lit := by
  rw [literal, hclause]
  exact TextEdit.literalAll_of_kept d.edits _ hkept

/-- What becomes of a literal of a clause. -/
theorem text_literal (d : Composition) {q : Query} (hq : q.HasPlainKeys) {clause : RowClause}
    {body : String} (hbody : d.raw.body? clause = some body) {pre lit post : List Char}
    (hlit : IsQuoted lit) (hparts : body.toList = pre ++ lit ++ post)
    (hplain : d.raw.PlainAround q clause pre post) :
    ∃ after, d.text q = d.place q clause pre ++ d.literal q clause pre lit ++ after := by
  obtain ⟨hquoted, before', post', hedits⟩ :=
    d.raw.editOf_edits hq d.plan.target.options.keyPath clause hlit hplain
  have hclause : (d.plan.statement q d.raw).clauses.body? clause =
      some (d.raw.editOf q d.plan.target.options.keyPath clause body) := by
    cases clause with
    | select =>
      cases hbody
      rfl
    | filter =>
      have hfilter : d.raw.filter = some body := hbody
      simp only [CreatePlan.statement, Clauses.body?, hfilter, Option.map_some]
      rfl
    | having =>
      have hhaving : d.raw.having = some body := hbody
      simp only [CreatePlan.statement, Clauses.body?, hhaving, Option.map_some]
      rfl
  obtain ⟨tail, htail⟩ := (d.plan.statement q d.raw).sql_split hclause
  have hbefore : d.before q clause pre =
      ((d.plan.statement q d.raw).upTo clause).toList ++ before' := by
    rw [before, clauseEdit, hedits.mark, dropLast_concat]
  have hstatement : (d.plan.statement q d.raw).sql.toList =
      d.before q clause pre ++ d.clauseEdit q clause lit ++ (post' ++ tail.toList) := by
    have hbodyText := hedits.text
    rw [← hparts, overChars, String.ofList_toList] at hbodyText
    rw [htail, String.toList_append, String.toList_append, hbodyText, hbefore, clauseEdit]
    simp only [append_assoc]
  rw [text, hstatement]
  exact TextEdit.runAll_literal d.edits _ _ hquoted

end Composition

/-- The texts of an output. -/
def Output.texts : Output → List String
  | .one sql => [sql]
  | .many statements => statements.map Prod.snd

/-- True when a step creates a stream or a table. -/
def Step.creates : Step → Bool
  | .insert _ => false
  | _ => true

namespace Compiler

variable {memo : Memo} {sql : String}

/-- The projection of a windowed statement, with the memo it is compiled with. -/
def windowedProjection (c : Compiler) (q : Query) (target : WindowedTarget) (memo : Memo) :
    Option Lambda × Memo :=
  let (adapted, memo) := c.hubProjection q target.overrides.input memo
  (adapted.or q.projection, memo)

/-- What the statements of a step are made of. -/
inductive Composes (c : Compiler) (scope : Scope) (q : Query) :
    Step → Memo → Composition → Prop
  /-- A created statement is not edited further. -/
  | create (target : CreateTarget) (memo : Memo) (raw : RawClauses)
      (h : (c.rawClauses q (createPlan q target) memo).1 = .ok raw) :
      Composes c scope q (.create target) memo ⟨createPlan q target, raw, []⟩
  /-- A windowed statement compiles the projection as it reads its input. -/
  | windowed (target : WindowedTarget) (memo : Memo) (raw : RawClauses)
      (h : (c.rawClauses q (target.plan q (c.windowedProjection q target memo).1)
        (c.windowedProjection q target memo).2).1 = .ok raw) :
      Composes c scope q (.windowed target) memo
        ⟨target.plan q (c.windowedProjection q target memo).1, raw,
          target.edits q (c.windowedProjection q target memo).1⟩
  /-- A hopping statement has the window of the query. -/
  | hopping (target : HoppingTarget) (memo : Memo) (window : HoppingWindow) (raw : RawClauses)
      (hwindow : q.hopping = some window) (h : (c.rawClauses q (target.plan q) memo).1 = .ok raw) :
      Composes c scope q (.hopping target) memo
        ⟨target.plan q, raw, target.edits q (.hopping window)⟩
  /-- Each timeframe has a windowed statement, which follows on those before it. -/
  | all (nameFor : String → String) (memo : Memo) (earlier later : List String)
      (timeframe : String) (d : Composition) (hwindows : q.windows = earlier ++ timeframe :: later)
      (h : Composes c scope q (.windowed { name := nameFor timeframe, timeframe })
        (c.allOf scope q nameFor earlier memo).2 d) :
      Composes c scope q (.all nameFor) memo d

variable (c : Compiler) (scope : Scope) (q : Query)

lemma ok_of_map_ok {α β : Type} {f : α → β} {x : Except Fault α} {b : β}
    (h : x.map f = .ok b) : ∃ a, x = .ok a ∧ f a = b := by
  cases x with
  | error e => cases h
  | ok a => exact ⟨a, rfl, Except.ok.inj h⟩

/-- A text made from an assembled statement has clauses that it is made of. -/
lemma raw_of_assemble {p : CreatePlan} {f : CreateStatement → String}
    (h : (c.assemble q p memo).1.map f = .ok sql) :
    ∃ raw, (c.rawClauses q p memo).1 = .ok raw ∧ f (p.statement q raw) = sql := by
  obtain ⟨s, hs, hsql⟩ := ok_of_map_ok h
  have hraw : (c.rawClauses q p memo).1.map (p.statement q) = .ok s := hs
  obtain ⟨raw, hok, rfl⟩ := ok_of_map_ok hraw
  exact ⟨raw, hok, hsql⟩

/-- Written clauses are what the clause writers gave. -/
lemma parts_of_rawClauses {p : CreatePlan} {raw : RawClauses}
    (h : (c.rawClauses q p memo).1 = .ok raw) :
    c.source q p.target.naming q.primaryAlias = .ok raw.source ∧
      c.groupBy q q.primaryAlias = .ok raw.groupBy ∧
      (c.select q p raw.groupBy memo).1 = .ok (raw.select, raw.keepsAlias) ∧
      c.filter q q.primaryAlias = .ok raw.filter ∧ c.having q = .ok raw.having := by
  unfold rawClauses at h
  split at h
  · cases h
  · next source hsource =>
    split at h
    · cases h
    · next groupBy hgroup =>
      obtain ⟨⟨select, keepsAlias⟩, hselect, h⟩ := ok_of_bind h
      obtain ⟨filter, hfilter, h⟩ := ok_of_bind h
      obtain ⟨having, hhaving, h⟩ := ok_of_bind h
      cases h
      exact ⟨hsource, hgroup, hselect, hfilter, hhaving⟩

/-- What a created statement is made of. -/
lemma composes_of_create {target : CreateTarget} (h : (c.create scope q target memo).1 = .ok sql) :
    ∃ d, c.Composes scope q (.create target) memo d ∧ sql.toList = d.text q := by
  unfold create at h
  split at h
  · cases h
  · obtain ⟨raw, hraw, rfl⟩ := c.raw_of_assemble q h
    exact ⟨_, .create target memo raw hraw, rfl⟩

/-- What a windowed statement is made of. -/
lemma composes_of_windowed {target : WindowedTarget}
    (h : (c.windowed scope q target memo).1 = .ok sql) :
    ∃ d, c.Composes scope q (.windowed target) memo d ∧ sql.toList = d.text q := by
  unfold windowed at h
  split at h
  · cases h
  · obtain ⟨raw, hraw, rfl⟩ := c.raw_of_assemble q
      (p := target.plan q (c.windowedProjection q target memo).1)
      (f := fun s => target.edit q (c.windowedProjection q target memo).1 s.sql) h
    exact ⟨_, .windowed target memo raw hraw, (target.runAll_edits q _ _).symm⟩

lemma window_of_hopping {target : HoppingTarget} {window : Window}
    (h : target.window scope q = .ok window) :
    ∃ hop, q.hopping = some hop ∧ window = .hopping hop := by
  unfold HoppingTarget.window at h
  obtain ⟨_, -, h⟩ := ok_of_bind h
  split at h
  · cases h
  · next hop hhop =>
    split at h
    · cases h
    · cases h
      exact ⟨hop, hhop, rfl⟩

/-- What a hopping statement is made of. -/
lemma composes_of_hopping {target : HoppingTarget}
    (h : (c.hopping scope q target memo).1 = .ok sql) :
    ∃ d, c.Composes scope q (.hopping target) memo d ∧ sql.toList = d.text q := by
  unfold hopping at h
  split at h
  · cases h
  · next window hwindow =>
    obtain ⟨raw, hraw, rfl⟩ := c.raw_of_assemble q h
    obtain ⟨hop, hhop, rfl⟩ := window_of_hopping scope q hwindow
    exact ⟨_, .hopping target memo hop raw hhop hraw, (target.runAll_edits q _ _).symm⟩

lemma allOf_cons_ok {nameFor : String → String} {timeframe sql : String} {memo next : Memo}
    (h : c.windowed scope q { name := nameFor timeframe, timeframe } memo = (.ok sql, next))
    (rest : List String) :
    c.allOf scope q nameFor (timeframe :: rest) memo =
      ((c.allOf scope q nameFor rest next).1.map fun others => (timeframe, sql) :: others,
        (c.allOf scope q nameFor rest next).2) := by
  rw [allOf, h]

/-- What the statements of a list of timeframes are made of. -/
lemma composes_of_allOf {nameFor : String → String} {timeframes : List String}
    {statements : List (String × String)}
    (h : (c.allOf scope q nameFor timeframes memo).1 = .ok statements)
    (hsql : sql ∈ statements.map Prod.snd) :
    ∃ earlier timeframe later d, timeframes = earlier ++ timeframe :: later ∧
      c.Composes scope q (.windowed { name := nameFor timeframe, timeframe })
        (c.allOf scope q nameFor earlier memo).2 d ∧ sql.toList = d.text q := by
  induction timeframes generalizing memo statements with
  | nil =>
    cases h
    cases hsql
  | cons timeframe rest ih =>
    cases hfirst : c.windowed scope q { name := nameFor timeframe, timeframe } memo with
    | mk answer next =>
      cases answer with
      | error e =>
        rw [allOf, hfirst] at h
        cases h
      | ok first =>
        have hrest := c.allOf_cons_ok scope q hfirst
        rw [hrest] at h
        obtain ⟨others, hothers, rfl⟩ := ok_of_map_ok h
        rcases mem_cons.1 hsql with rfl | hsql
        · have hok : (c.windowed scope q { name := nameFor timeframe, timeframe } memo).1 =
              .ok sql := by rw [hfirst]
          obtain ⟨d, hd, htext⟩ := c.composes_of_windowed scope q hok
          exact ⟨[], timeframe, rest, d, rfl, hd, htext⟩
        · obtain ⟨earlier, timeframe', later, d, rfl, hd, htext⟩ := ih hothers hsql
          refine ⟨timeframe :: earlier, timeframe', later, d, rfl, ?_, htext⟩
          rw [hrest]
          exact hd

/-- What the statements of a step are made of. -/
theorem composes_of_run {step : Step} (hstep : step.creates) {memo : Memo} {output : Output}
    (h : (c.run scope q step memo).1 = .ok output) {sql : String} (hsql : sql ∈ output.texts) :
    ∃ d, c.Composes scope q step memo d ∧ sql.toList = d.text q := by
  have hone : ∀ {x : Except Fault String}, x.map Output.one = .ok output → x = .ok sql := by
    intro x hx
    obtain ⟨text, htext, rfl⟩ := ok_of_map_ok hx
    rw [htext, mem_singleton.1 hsql]
  cases step with
  | create target => exact c.composes_of_create scope q (hone h)
  | windowed target => exact c.composes_of_windowed scope q (hone h)
  | hopping target => exact c.composes_of_hopping scope q (hone h)
  | all nameFor =>
    obtain ⟨statements, hall, rfl⟩ := ok_of_map_ok (f := Output.many)
      (x := (c.all scope q nameFor memo).1) h
    obtain ⟨earlier, timeframe, later, d, hwindows, hd, htext⟩ :=
      c.composes_of_allOf scope q hall hsql
    exact ⟨d, .all nameFor memo earlier later timeframe d hwindows hd, htext⟩
  | insert target => cases hstep

end Compiler

/-! ## Constants -/

lemma isQuoted_quoted (s : String) : IsQuoted (Constant.quoted s).toList :=
  ⟨Constant.doubleQuotes s.toList, Constant.toList_quoted s⟩

/-- Every text that a step returns is made of clauses with their edits, and has for each literal of
its WHERE, HAVING and SELECT clauses what the edits make of it. So a string constant is in the
statement exactly if the edits leave its literal as it is; and they do, whatever stands around it,
if each of them leaves the literal alone. Key columns must have no quotation marks in their names,
and a literal of a SELECT list that loses its alias must be plain around. -/
theorem literal_in_statement_iff (c : Compiler) (scope : Scope) (q : Query) (step : Step)
    (memo : Memo) (output : Output) (hq : q.HasPlainKeys) (hstep : step.creates = true)
    (hrun : (c.run scope q step memo).1 = .ok output) (sql : String) (hsql : sql ∈ output.texts) :
    ∃ d, c.Composes scope q step memo d ∧ sql.toList = d.text q ∧
      ∀ clause body pre s post, d.raw.body? clause = some body →
        body.toList = pre ++ (Constant.quoted s).toList ++ post →
        d.raw.PlainAround q clause pre post →
        ∃ after,
          sql.toList = d.place q clause pre ++
            d.literal q clause pre (Constant.quoted s).toList ++ after ∧
          (sql.toList = d.place q clause pre ++ (Constant.quoted s).toList ++ after ↔
            d.literal q clause pre (Constant.quoted s).toList = (Constant.quoted s).toList) ∧
          (d.clauseEdit q clause (Constant.quoted s).toList = (Constant.quoted s).toList →
            (∀ e ∈ d.edits, e.run (Constant.quoted s).toList = (Constant.quoted s).toList) →
            sql.toList = d.place q clause pre ++ (Constant.quoted s).toList ++ after) := by
  obtain ⟨d, hd, htext⟩ := c.composes_of_run scope q hstep hrun hsql
  refine ⟨d, hd, htext, fun clause body pre s post hbody hparts hplain => ?_⟩
  obtain ⟨after, hafter⟩ := d.text_literal hq hbody (isQuoted_quoted s) hparts hplain
  rw [← htext] at hafter
  refine ⟨after, hafter, ?_, fun hclause hkept => ?_⟩
  · rw [hafter, append_left_inj, append_right_inj]
  · rw [hafter, d.literal_of_kept q clause pre hclause hkept]

/-- A query on a table with key `Id`, filtered by the constant `KEY`. -/
def keyedRows : Query :=
  Query.Draft.build
    { sources := [{ typeName := "T", kind := .table,
                    columns := [{ name := "Id", type := .unknown, keyOrder := some 0 }] }]
      filter := some
        { params := [⟨"x", .unknown⟩]
          body := .binary .equal (.member (.param ⟨"x", .unknown⟩) "A" .unknown false)
            (.const (.string "KEY")) } } 0

/-- The statement of that query. -/
def keyedText : String :=
  "CREATE STREAM IF NOT EXISTS c WITH (KAFKA_TOPIC='c', KEY_FORMAT='AVRO', VALUE_FORMAT='AVRO')" ++
    " AS\nSELECT *\nFROM T\nWHERE (A = 'KEY->ID')\nEMIT CHANGES;"

/-- The constant of the filter is written as if it were the key column. -/
theorem literal_in_statement_keyedRows :
    keyedRows.HasPlainKeys ∧
    (({} : Compiler).run ⟨0⟩ keyedRows (.create { name := "c" }) (Memo.start none)).1 =
      .ok (.one keyedText) ∧
    ∃ d after,
      ({} : Compiler).Composes ⟨0⟩ keyedRows (.create { name := "c" }) (Memo.start none) d ∧
      d.raw.filter = some "(A = 'KEY')" ∧
      keyedText.toList = d.place keyedRows .filter "(A = ".toList ++ "'KEY->ID'".toList ++ after ∧
      keyedText.toList ≠ d.place keyedRows .filter "(A = ".toList ++ "'KEY'".toList ++ after := by
  have hkeys : keyedRows.HasPlainKeys := by decide +kernel
  have hrun : (({} : Compiler).run ⟨0⟩ keyedRows (.create { name := "c" }) (Memo.start none)).1 =
      .ok (.one keyedText) := by decide +kernel
  have hraw : (({} : Compiler).rawClauses keyedRows (Compiler.createPlan keyedRows { name := "c" })
      (Memo.start none)).1.map (fun raw => (raw.filter, raw.edit keyedRows .plain "'KEY'")) =
        .ok (some "(A = 'KEY')", "'KEY->ID'") := by decide +kernel
  obtain ⟨d, hd, -, hliterals⟩ := literal_in_statement_iff {} ⟨0⟩ keyedRows
    (.create { name := "c" }) (Memo.start none) (.one keyedText) hkeys rfl hrun keyedText
    (mem_singleton_self _)
  cases hd with
  | create _ _ raw h =>
    rw [h] at hraw
    obtain ⟨hfilter, hedit⟩ := Prod.mk.inj (Except.ok.inj hraw)
    obtain ⟨after, htext, hiff, -⟩ := hliterals .filter "(A = 'KEY')" "(A = ".toList "KEY"
      ")".toList hfilter (by decide) fun hselect => by cases hselect
    have hquoted : Constant.quoted "KEY" = "'KEY'" := by decide
    have hliteral : Composition.literal ⟨Compiler.createPlan keyedRows { name := "c" }, raw, []⟩
        keyedRows .filter "(A = ".toList "'KEY'".toList = "'KEY->ID'".toList := by
      change (raw.edit keyedRows .plain (String.ofList "'KEY'".toList)).toList = _
      rw [String.ofList_toList, hedit]
    rw [hquoted, hliteral] at htext hiff
    refine ⟨hkeys, hrun, _, after, .create _ _ raw h, hfilter, htext, fun hkept => ?_⟩
    exact absurd (hiff.1 hkept) (by decide)

end StreamQuery
