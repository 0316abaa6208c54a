import StreamQuery.Proofs.Literals
import StreamQuery.Proofs.WindowKept

/-!
# Windows in statements

The text of a step with a window is the finished statement with the window at its place
(`text_of_run`), without the window starts for a hopping window.  `Windowing.text_behind` says what
follows the source there: the window, if the source has a name by the rules of the search and
something that ends it behind it, and else what followed it before.
`CreateStatement.endsSource_behindSource` says which clauses end a source.
-/

namespace StreamQuery

open List Text Placement

/-! ## What a step does to its statement -/

/-- The finished statement with the emit mode and the source that are asked for. -/
def WindowOverrides.text (o : WindowOverrides) (sql : String) : String :=
  let sql := match o.emit.bind nonBlank with
    | some emit => replaceAll "EMIT CHANGES" emit sql
    | none => sql
  match o.input.bind nonBlank with
    | some input => retarget input sql
    | none => sql

/-- What a step with a window does to the text of its statement. -/
structure Windowing where
  overrides : WindowOverrides
  window : Window
  /-- For a hopping window: whether the projection asks for the start of its window. -/
  asksForStart : Option Bool

namespace Windowing

/-- The finished statement before the window is placed. -/
def plain (w : Windowing) (sql : String) : List Char :=
  (w.overrides.text sql).toList

/-- What is done after the window has been placed. -/
def finish (w : Windowing) (s : List Char) : List Char :=
  w.asksForStart.elim s fun asksForStart => WindowStart.dropChars asksForStart s

/-- The text of a statement: the window is at its place, or there is none. -/
def text (w : Windowing) (sql : String) : List Char :=
  w.finish ((spotIn? (w.plain sql)).elim (w.plain sql) fun spot =>
    spot.1 ++ ' ' :: w.window.sql.toList ++ spot.2)

end Windowing

/-- A step with a window of its own. -/
def Step.hasWindow : Step → Bool
  | .windowed _ => true
  | .hopping _ => true
  | _ => false

namespace Compiler

/-- What a step does to the text of its statement, for a step with a window. -/
def windowing? (c : Compiler) (q : Query) (memo : Memo) : Step → Option Windowing
  | .windowed target => some
      { overrides := target.overrides
        window := target.window q.grace
        asksForStart :=
          if target.hop.isSome then
            some ((c.windowedProjection q target memo).1.any Lambda.callsWindowStart)
          else none }
  | .hopping target => q.hopping.map fun hop =>
      { overrides := target.overrides
        window := .hopping hop
        asksForStart := some (q.projection.any Lambda.callsWindowStart) }
  | _ => none

/-- Placing the window and finishing are the edits of a windowed statement. -/
lemma toList_edit (o : WindowOverrides) (window : Window) (asksForStart : Option Bool)
    (sql : String) :
    (asksForStart.elim (o.apply window sql) fun asksForStart =>
      WindowStart.dropAll asksForStart (o.apply window sql)).toList =
      Windowing.text ⟨o, window, asksForStart⟩ sql := by
  have hplace : (o.apply window sql).toList = (spotIn? (o.text sql).toList).elim (o.text sql).toList
      fun spot => spot.1 ++ ' ' :: window.sql.toList ++ spot.2 :=
    toList_place window.sql (o.text sql)
  unfold Windowing.text Windowing.finish Windowing.plain
  rw [← hplace]
  cases asksForStart with
  | none => rfl
  | some asksForStart =>
    have htext : (WindowStart.dropAll asksForStart (o.apply window sql)).toList =
        WindowStart.dropChars asksForStart (o.apply window sql).toList := String.toList_ofList
    exact htext

/-- The text of a windowed step has its window at its place, finished. -/
lemma text_of_run (c : Compiler) (scope : Scope) (q : Query) {step : Step}
    (hstep : step.hasWindow) {memo : Memo} {output : Output}
    (h : (c.run scope q step memo).1 = .ok output) {sql : String} (hsql : sql ∈ output.texts) :
    ∃ d w, c.Composes scope q step memo d ∧ c.windowing? q memo step = some w ∧
      sql.toList = w.text (d.plan.statement q d.raw).sql := by
  have hcreates : step.creates := by
    cases step with
    | insert target => cases hstep
    | _ => rfl
  obtain ⟨d, hd, htext⟩ := c.composes_of_run scope q hcreates h hsql
  rw [htext]
  cases hd with
  | create => cases hstep
  | all => cases hstep
  | windowed target _ raw hraw =>
    refine ⟨_, _, .windowed target memo raw hraw, rfl, ?_⟩
    rw [Composition.text, target.runAll_edits, ← toList_edit, WindowedTarget.edit]
    dsimp only
    split
    · rfl
    · rfl
  | hopping target _ hop raw hhop hraw =>
    refine ⟨_, ⟨target.overrides, .hopping hop, some (q.projection.any Lambda.callsWindowStart)⟩,
      .hopping target memo hop raw hhop hraw, ?_, ?_⟩
    · rw [windowing?, hhop]
      rfl
    · rw [Composition.text, target.runAll_edits, ← toList_edit, HoppingTarget.edit]
      rfl

end Compiler

/-! ## What follows the source -/

/-- What can follow the source of a statement: the end, another line, or a join. -/
def NextPart (tail : List Char) : Prop :=
  tail.head? = some ';' ∨ tail.head? = some '\n' ∨ " JOIN ".toList <+: tail

lemma NextPart.startsWord {tail : List Char} (h : NextPart tail) : startsWord tail = false := by
  rcases h with h | h | ⟨rest, rfl⟩
  · rw [Text.startsWord, h]
    rfl
  · rw [Text.startsWord, h]
    rfl
  · exact (rfl : isWord ' ' = false)

lemma Window.head?_sql (window : Window) : window.sql.toList.head? = some 'W' := by
  have happend : ∀ a b : String, a.toList.head? = some 'W' → (a ++ b).toList.head? = some 'W' := by
    intro a b ha
    rw [String.toList_append, head?_append, ha]
    rfl
  cases window with
  | tumbling size grace => exact happend _ _ (happend _ _ (happend _ _ rfl))
  | hopping w =>
    exact happend _ _ (happend _ _ (happend _ _ (happend _ _ (happend _ _ rfl))))

namespace Windowing

variable (w : Windowing)

/-- A finished statement with its source on a line of its own. -/
structure SourceLine (plain front name aliasText tail : List Char) : Prop where
  text : plain = front ++ fromLine ++ (name ++ aliasText) ++ tail
  plainName : IsPlainName name
  aliased : IsAliasText aliasText
  next : NextPart tail
  /-- There is no other source up to here. -/
  onlyFrom : OnlyFrom front (name ++ aliasText) tail
  /-- In a hopping statement, the window starts that are taken out have nothing to do with the
  source. -/
  leaves : ∀ asksForStart, w.asksForStart = some asksForStart →
    WindowStart.leavesFrom asksForStart front = true ∧
      ∀ z, z <:+ name → dropFolded? "WINDOWSTART".toList z = none

/-- What a statement has behind its source. -/
def Behind (front source sql rest : List Char) : Prop :=
  ∃ front', w.finish (front ++ fromLine) = front' ++ fromLine ∧
    sql = front' ++ fromLine ++ source ++ rest

lemma finish_nil : w.finish [] = [] := by
  unfold finish
  cases w.asksForStart with
  | none => rfl
  | some asksForStart => cases asksForStart <;> rfl

lemma finish_passed {p : List Char} (hp : w.asksForStart.isSome → WindowStart.Passed p)
    (rest : List Char) : w.finish (p ++ rest) = p ++ w.finish rest := by
  unfold finish
  cases hasks : w.asksForStart with
  | none => rfl
  | some asksForStart => exact (hp (by rw [hasks]; rfl)).dropChars asksForStart rest

variable {w} {plain front name aliasText tail : List Char}

/-- Finishing leaves the source alone, whatever follows. -/
lemma SourceLine.passed_source (h : w.SourceLine plain front name aliasText tail) {c : Char}
    (hword : isWord c = false) (hc : WindowStart.isInert c) :
    w.asksForStart.isSome → WindowStart.Passed (name ++ aliasText ++ [c]) := by
  intro hasks
  obtain ⟨asksForStart, hasks⟩ := Option.isSome_iff_exists.1 hasks
  have hstart := (h.leaves asksForStart hasks).2
  have hcomma : ',' ∉ name := fun hmem => (h.plainName.2 ',' hmem).2.1 rfl
  have hne : c ≠ ',' := by
    rintro rfl
    cases hc
  rcases h.aliased with rfl | rfl
  · rw [append_nil]
    exact WindowStart.passed_name hcomma hstart hword hne
  · have hname : WindowStart.Passed (name ++ [' ']) :=
      WindowStart.passed_name hcomma hstart rfl (by decide)
    have halias : WindowStart.Passed ['o', c] := WindowStart.passed_of_inert (by simp [hc]; decide)
    have hboth := hname.append halias
    rwa [append_assoc] at hboth ⊢

/-- Finishing leaves the beginning of the line of the source where it is. -/
lemma finish_front (hleaves : ∀ asksForStart, w.asksForStart = some asksForStart →
      WindowStart.leavesFrom asksForStart front) :
    ∃ front', w.finish (front ++ fromLine) = front' ++ fromLine ∧
      ∀ rest, w.finish (front ++ fromLine ++ rest) = front' ++ fromLine ++ w.finish rest := by
  have hline : ∃ front', ∀ rest,
      w.finish (front ++ fromLine ++ rest) = front' ++ fromLine ++ w.finish rest := by
    unfold finish
    cases hasks : w.asksForStart with
    | none => exact ⟨front, fun _ => rfl⟩
    | some asksForStart => exact WindowStart.dropChars_line (hleaves asksForStart hasks)
  obtain ⟨front', hfront'⟩ := hline
  have hnil := hfront' []
  rw [w.finish_nil, append_nil, append_nil] at hnil
  exact ⟨front', hnil, hfront'⟩

/-- Finishing leaves the line of the source where it is. -/
lemma SourceLine.finish_line (h : w.SourceLine plain front name aliasText tail) :
    ∃ front', w.finish (front ++ fromLine) = front' ++ fromLine ∧
      ∀ c rest, isWord c = false → WindowStart.isInert c →
        w.finish (front ++ fromLine ++ (name ++ aliasText) ++ c :: rest) =
          front' ++ fromLine ++ (name ++ aliasText) ++ c :: w.finish rest := by
  obtain ⟨front', hnil, hfront'⟩ :=
    finish_front fun asksForStart hasks => (h.leaves asksForStart hasks).1
  refine ⟨front', hnil, fun c rest hword hc => ?_⟩
  have hsource := w.finish_passed (h.passed_source hword hc) rest
  rw [append_assoc] at hsource
  rw [append_assoc, hfront', show c :: rest = [c] ++ rest from rfl, hsource]
  simp only [append_assoc]
  rfl

/-- If the window is not placed right behind the source, the text there begins as before. -/
lemma SourceLine.placed_elsewhere (h : w.SourceLine plain front name aliasText tail)
    (hnot : ¬ (isName name ∧ endsSource tail)) (window : List Char) :
    ∃ c rest, (spotIn? plain).elim plain (fun spot => spot.1 ++ ' ' :: window ++ spot.2) =
        front ++ fromLine ++ (name ++ aliasText) ++ c :: rest ∧
      isWord c = false ∧ WindowStart.isInert c ∧
      (c = ' ' → ∃ rest', rest = 'J' :: rest') := by
  -- the text behind the source has a beginning in common with what follows it
  have hrest : ∃ z rest,
      (spotIn? plain).elim plain (fun spot => spot.1 ++ ' ' :: window ++ spot.2) =
        front ++ fromLine ++ (name ++ aliasText) ++ (z ++ rest) ∧ z <+: tail ∧
        (∀ y, tail = ' ' :: 'J' :: y → [' ', 'J'] <+: z) ∧ z ≠ [] := by
    have hne : tail ≠ [] := by
      rintro rfl
      rcases h.next with hnext | hnext | ⟨y, hnext⟩ <;> cases hnext
    cases hspot : spotIn? plain with
    | none =>
      exact ⟨tail, [], by rw [append_nil]; exact h.text, prefix_rfl,
        fun y hy => hy ▸ ⟨y, rfl⟩, hne⟩
    | some spot =>
      have hsome := hspot
      rw [h.text] at hsome
      obtain ⟨z, hfirst, htail, hisName, hends⟩ :=
        spotIn?_beyond h.plainName h.aliased h.next.startsWord h.onlyFrom hsome
      have hz : z ≠ [] := by
        rintro rfl
        rw [htail] at hnot
        exact hnot ⟨hisName rfl, hends⟩
      refine ⟨z, ' ' :: window ++ spot.2, ?_, ⟨spot.2, htail.symm⟩, fun y hy => ?_, hz⟩
      · rw [Option.elim_some, hfirst]
        simp only [append_assoc]
      · -- no place is inside the word JOIN
        obtain ⟨d, ds, hhead, hd⟩ := endsSource_head hends
        rw [htail, hhead] at hy
        match z, hz, hy with
        | [c], _, hchars =>
          obtain ⟨-, hbehind⟩ := cons.inj hchars
          obtain ⟨rfl, -⟩ := cons.inj hbehind
          rcases hd with hd | hd <;> cases hd
        | c :: c' :: z, _, hchars =>
          obtain ⟨rfl, hbehind⟩ := cons.inj hchars
          obtain ⟨rfl, -⟩ := cons.inj hbehind
          exact ⟨z, rfl⟩
  obtain ⟨z, rest, htext, hprefix, hjoin, hz⟩ := hrest
  obtain ⟨c, z, rfl⟩ := exists_cons_of_ne_nil hz
  obtain ⟨y, hy⟩ := hprefix
  refine ⟨c, z ++ rest, htext, ?_⟩
  rcases h.next with hnext | hnext | ⟨y', hnext⟩
  · rw [← hy] at hnext
    cases hnext
    exact ⟨rfl, by decide, fun hspace => by cases hspace⟩
  · rw [← hy] at hnext
    cases hnext
    exact ⟨rfl, by decide, fun hspace => by cases hspace⟩
  · obtain ⟨z', hz'⟩ := hjoin ("OIN ".toList ++ y') hnext.symm
    obtain ⟨rfl, rfl⟩ := cons.inj hz'
    exact ⟨rfl, by decide, fun _ => ⟨z' ++ rest, rfl⟩⟩

/-- Behind its source, a statement has the window exactly if the source has a name by the rules of
the search and what follows it ends it. -/
theorem text_behind {sql : String} (h : w.SourceLine (w.plain sql) front name aliasText tail) :
    ∃ rest, w.Behind front (name ++ aliasText) (w.text sql) rest ∧
      (' ' :: w.window.sql.toList <+: rest ↔ isName name ∧ endsSource tail) := by
  obtain ⟨front', hfront', hline⟩ := h.finish_line
  by_cases hfound : isName name ∧ endsSource tail
  · -- the window is right behind the source
    have hspot :=
      (spotIn?_eq_source_iff h.plainName h.aliased h.next.startsWord h.onlyFrom).2 hfound
    rw [← h.text] at hspot
    refine ⟨' ' :: (w.window.sql.toList ++ w.finish tail), ⟨front', hfront', ?_⟩,
      iff_of_true ⟨w.finish tail, rfl⟩ hfound⟩
    rw [text, hspot, Option.elim_some,
      ← w.finish_passed (fun _ => WindowStart.passed_window w.window) tail,
      ← hline ' ' _ rfl (by decide)]
    simp only [append_assoc, cons_append]
  · obtain ⟨c, rest, htext, hword, hc, hjoin⟩ := h.placed_elsewhere hfound w.window.sql.toList
    refine ⟨c :: w.finish rest, ⟨front', hfront', ?_⟩, iff_of_false ?_ hfound⟩
    · rw [text, htext, hline c rest hword hc]
    · rintro ⟨y, hy⟩
      obtain ⟨rfl, hbehind⟩ := cons.inj hy
      obtain ⟨rest', rfl⟩ := hjoin rfl
      have hinert : WindowStart.Passed ['J'] := WindowStart.passed_of_inert (by decide)
      have hpass := w.finish_passed (fun _ => hinert) rest'
      have hhead := w.window.head?_sql
      obtain ⟨ds, hds⟩ : ∃ ds, w.window.sql.toList = 'W' :: ds := by
        cases hsql : w.window.sql.toList with
        | nil =>
          rw [hsql] at hhead
          cases hhead
        | cons d ds =>
          rw [hsql] at hhead
          exact ⟨ds, by rw [Option.some.inj hhead]⟩
      have hletters : 'W' :: (ds ++ y) = 'J' :: w.finish rest' := by
        rw [← cons_append, ← hds]
        exact hbehind.trans hpass
      cases (cons.inj hletters).1

end Windowing

/-! ## The clauses behind the source -/

/-- The alias of the primary source as a FROM clause has it. -/
def FromClause.aliasText (f : FromClause) : List Char :=
  if f.aliased then [' ', 'o'] else []

lemma FromClause.isAliasText (f : FromClause) : IsAliasText f.aliasText := by
  unfold aliasText
  split
  · exact .inr rfl
  · exact .inl rfl

namespace CreateStatement

/-- A statement up to the line of its source. -/
def upToSource (s : CreateStatement) : String :=
  "CREATE " ++ s.kind.keyword ++ " IF NOT EXISTS " ++ s.name ++ " " ++ s.sink.sql ++ " AS\n" ++
    "SELECT " ++ s.clauses.select

/-- A statement behind its primary source. -/
def behindSource (s : CreateStatement) (join : Option JoinClause) : String :=
  (join.map JoinClause.sql).getD "" ++ Clauses.line "WHERE" s.clauses.filter ++
    Clauses.line "GROUP BY" s.clauses.groupBy ++ Clauses.line "HAVING" s.clauses.having ++
    "\nEMIT CHANGES;"

/-- The word behind the primary source of a statement. -/
def nextWord (s : CreateStatement) (join : Option JoinClause) : String :=
  if join.isSome then "JOIN"
  else if s.clauses.filter.isSome then "WHERE"
  else if s.clauses.groupBy.isSome then "GROUP"
  else if s.clauses.having.isSome then "HAVING"
  else "EMIT"

variable (s : CreateStatement) (join : Option JoinClause)

/-- A statement is divided at its source. -/
lemma toList_sql {f : FromClause} (h : s.clauses.source = f.sql) :
    s.sql.toList = s.upToSource.toList ++ fromLine ++ (f.left.toList ++ f.aliasText) ++
      (s.behindSource f.join).toList := by
  have hjoin : f.sql = "FROM " ++ f.left ++ (if f.aliased then " " ++ primaryAlias else "") ++
      (f.join.map JoinClause.sql).getD "" := by
    unfold FromClause.sql
    cases f.join with
    | none => rfl
    | some j => rfl
  have halias : (if f.aliased then " " ++ primaryAlias else "").toList = f.aliasText := by
    unfold FromClause.aliasText
    split
    · rfl
    · rfl
  have hsql : s.sql = s.upToSource ++ ("\n" ++ "FROM ") ++
      (f.left ++ (if f.aliased then " " ++ primaryAlias else "")) ++ s.behindSource f.join := by
    unfold sql upToSource behindSource Clauses.sql
    rw [h, hjoin]
    simp only [String.append_assoc]
  have hline : ("\n" ++ "FROM ").toList = fromLine := rfl
  rw [hsql]
  simp only [String.toList_append, ← halias, ← hline]

/-- Behind its primary source is the next word, on the same line for a join. -/
lemma behindSource_eq :
    ∃ rest, (s.behindSource join).toList =
      (if join.isSome then ' ' else '\n') :: ((s.nextWord join).toList ++ ' ' :: rest) := by
  -- the text of what comes next begins with its keyword
  have hnext : ∀ (lead word : String) (c : Char) (tail : String),
      lead.toList = c :: (word.toList ++ [' ']) →
      ∃ rest, (lead ++ tail).toList = c :: (word.toList ++ ' ' :: rest) := by
    intro lead word c tail hlead
    refine ⟨tail.toList, ?_⟩
    rw [String.toList_append, hlead]
    simp
  have hline : ∀ keyword body : String,
      Clauses.line keyword (some body) = "\n" ++ keyword ++ " " ++ body := fun _ _ => rfl
  have hempty : ∀ keyword, Clauses.line keyword none = "" := fun _ => rfl
  have hbehind : s.behindSource join = (join.map JoinClause.sql).getD "" ++
      (Clauses.line "WHERE" s.clauses.filter ++ (Clauses.line "GROUP BY" s.clauses.groupBy ++
        (Clauses.line "HAVING" s.clauses.having ++ "\nEMIT CHANGES;"))) := by
    unfold behindSource
    simp only [String.append_assoc]
  rw [hbehind, nextWord]
  cases join with
  | some j =>
    rw [Option.map_some, Option.getD_some]
    unfold JoinClause.sql
    simp only [String.append_assoc]
    exact hnext " JOIN " "JOIN" ' ' _ rfl
  | none =>
    rw [Option.map_none, Option.getD_none, String.empty_append]
    cases s.clauses.filter with
    | some body =>
      rw [hline, String.append_assoc]
      exact hnext ("\n" ++ "WHERE" ++ " ") "WHERE" '\n' _ rfl
    | none =>
      rw [hempty, String.empty_append]
      cases s.clauses.groupBy with
      | some body =>
        have hgroup : "\n" ++ "GROUP BY" ++ " " = "\nGROUP " ++ "BY " := rfl
        rw [hline, String.append_assoc, hgroup, String.append_assoc]
        exact hnext "\nGROUP " "GROUP" '\n' _ rfl
      | none =>
        rw [hempty, String.empty_append]
        cases s.clauses.having with
        | some body =>
          rw [hline, String.append_assoc]
          exact hnext ("\n" ++ "HAVING" ++ " ") "HAVING" '\n' _ rfl
        | none =>
          rw [hempty, String.empty_append]
          exact hnext "\nEMIT " "EMIT" '\n' "CHANGES;" rfl

lemma nextPart_behindSource : NextPart (s.behindSource join).toList := by
  obtain ⟨rest, hrest⟩ := s.behindSource_eq join
  rw [hrest, nextWord]
  cases join with
  | some j =>
    change NextPart (' ' :: ("JOIN".toList ++ ' ' :: rest))
    exact .inr (.inr ⟨rest, rfl⟩)
  | none => exact .inr (.inl rfl)

/-- A join, a filter, grouping keys and the emit mode end a source; a filter on groups does not. -/
lemma endsSource_behindSource :
    endsSource (s.behindSource join).toList ↔
      join.isSome ∨ s.clauses.filter.isSome ∨ s.clauses.groupBy.isSome ∨
        s.clauses.having = none := by
  obtain ⟨rest, hrest⟩ := s.behindSource_eq join
  have hspace : startsWord (' ' :: rest) = false := (rfl : isWord ' ' = false)
  have hword : ∀ (c : Char) (word : String), isBlank c → word.toList.all isWord →
      word.toList ≠ [] → (endsSource (c :: (word.toList ++ ' ' :: rest)) ↔
        ∃ keyword ∈ keywords, SameFolded word.toList keyword.toList) :=
    fun c word hc hword hne => endsSource_word_iff hc (all_eq_true.1 hword) hne hspace
  rw [hrest, nextWord]
  cases join with
  | some j =>
    have hjoin := (hword ' ' "JOIN" (by decide) (by decide) (by decide)).2 (by decide)
    exact iff_of_true hjoin (.inl rfl)
  | none =>
    cases s.clauses.filter with
    | some body =>
      have hwhere := (hword '\n' "WHERE" (by decide) (by decide) (by decide)).2 (by decide)
      exact iff_of_true hwhere (.inr (.inl rfl))
    | none =>
      cases s.clauses.groupBy with
      | some body =>
        have hgroup := (hword '\n' "GROUP" (by decide) (by decide) (by decide)).2 (by decide)
        exact iff_of_true hgroup (.inr (.inr (.inl rfl)))
      | none =>
        cases s.clauses.having with
        | some body =>
          have hhaving :=
            (hword '\n' "HAVING" (by decide) (by decide) (by decide)).not.2 (by decide)
          exact iff_of_false hhaving (by simp)
        | none =>
          have hemit := (hword '\n' "EMIT" (by decide) (by decide) (by decide)).2 (by decide)
          exact iff_of_true hemit (.inr (.inr (.inr rfl)))

end CreateStatement

/-! ## Windows behind sources -/

/-- The statement of a composition before the edits of its text. -/
def Composition.statement (d : Composition) (q : Query) : CreateStatement :=
  d.plan.statement q d.raw

lemma WindowOverrides.text_of_none {o : WindowOverrides} (hemit : o.emit.bind nonBlank = none)
    (hinput : o.input.bind nonBlank = none) (sql : String) : o.text sql = sql := by
  unfold text
  rw [hemit, hinput]

/-- The text of a step with a window is the finished statement with the window at the first place
for it, if there is one. Behind a source on a line of its own stands the window exactly if the name
of the source is a letter or an underscore with word characters behind it, and a semicolon or a
keyword that ends a source follows. If nothing is replaced, one follows for a join, a filter,
grouping keys, or if there is no filter on groups. A source on a line of its own has a name without
white space, commas and semicolons, and there is no earlier FROM with a name behind it. In a hopping
statement, moreover, the name holds no window start and the SELECT list does not end with AS. -/
theorem window_behind_source_iff (c : Compiler) (scope : Scope) (q : Query) (step : Step)
    (memo : Memo) (output : Output) (hstep : step.hasWindow = true)
    (hrun : (c.run scope q step memo).1 = .ok output) (sql : String) (hsql : sql ∈ output.texts) :
    ∃ d w, c.Composes scope q step memo d ∧ c.windowing? q memo step = some w ∧
      sql.toList = w.text (d.statement q).sql ∧
      (∀ front name aliasText tail,
        w.SourceLine (w.plain (d.statement q).sql) front name aliasText tail →
        ∃ rest, w.Behind front (name ++ aliasText) sql.toList rest ∧
          (' ' :: w.window.sql.toList <+: rest ↔ isName name = true ∧ endsSource tail = true)) ∧
      (w.overrides.emit.bind nonBlank = none → w.overrides.input.bind nonBlank = none →
        ∀ f : FromClause, (d.statement q).clauses.source = f.sql → IsPlainName f.left.toList →
        OnlyFrom (d.statement q).upToSource.toList (f.left.toList ++ f.aliasText)
          ((d.statement q).behindSource f.join).toList →
        (∀ asksForStart, w.asksForStart = some asksForStart →
          WindowStart.leavesFrom asksForStart (d.statement q).upToSource.toList = true ∧
            ∀ z, z <:+ f.left.toList → dropFolded? "WINDOWSTART".toList z = none) →
        ∃ rest,
          w.Behind (d.statement q).upToSource.toList (f.left.toList ++ f.aliasText) sql.toList
            rest ∧
          (' ' :: w.window.sql.toList <+: rest ↔
            isName f.left.toList = true ∧
              (f.join.isSome = true ∨ (d.statement q).clauses.filter.isSome = true ∨
                (d.statement q).clauses.groupBy.isSome = true ∨
                (d.statement q).clauses.having = none))) := by
  obtain ⟨d, w, hd, hw, htext⟩ := c.text_of_run scope q hstep hrun hsql
  have hbehind : ∀ front name aliasText tail,
      w.SourceLine (w.plain (d.statement q).sql) front name aliasText tail →
      ∃ rest, w.Behind front (name ++ aliasText) sql.toList rest ∧
        (' ' :: w.window.sql.toList <+: rest ↔ isName name = true ∧ endsSource tail = true) := by
    intro front name aliasText tail hline
    rw [htext]
    exact Windowing.text_behind hline
  refine ⟨d, w, hd, hw, htext, hbehind, fun hemit hinput f hsource hname honly hleaves => ?_⟩
  have hplain : w.plain (d.statement q).sql = (d.statement q).sql.toList := by
    rw [Windowing.plain, w.overrides.text_of_none hemit hinput]
  obtain ⟨rest, hrest, hiff⟩ := hbehind _ _ _ _
    { text := hplain.trans ((d.statement q).toList_sql hsource)
      plainName := hname
      aliased := f.isAliasText
      next := (d.statement q).nextPart_behindSource f.join
      onlyFrom := honly
      leaves := hleaves }
  rw [(d.statement q).endsSource_behindSource f.join] at hiff
  exact ⟨rest, hrest, hiff⟩

/-- A query on a source whose topic has a hyphen in its name. -/
def hyphenRows : Query :=
  Query.Draft.build { sources := [{ typeName := "Rate", topic := some "dedup-rates" }] } 0

/-- The statement of that query over windows of one minute, up to its source. -/
def hyphenFront : String :=
  "CREATE STREAM IF NOT EXISTS w WITH (KAFKA_TOPIC='w', VALUE_FORMAT='AVRO', PARTITIONS=1, " ++
    "REPLICAS=1) AS\nSELECT *"

/-- The text of that statement. -/
def hyphenText : String :=
  hyphenFront ++ "\nFROM DEDUP-RATES\nEMIT CHANGES;"

/-- The clauses of that statement. -/
def hyphenClauses : Clauses :=
  { source := "FROM DEDUP-RATES", select := "*" }

/-- The statement is returned without its window. -/
theorem window_behind_source_hyphenRows :
    (({} : Compiler).run ⟨0⟩ hyphenRows (.windowed { name := "w", timeframe := "1m" })
      (Memo.start none)).1 = .ok (.one hyphenText) ∧
    ∃ w front rest,
      ({} : Compiler).windowing? hyphenRows (Memo.start none)
        (.windowed { name := "w", timeframe := "1m" }) = some w ∧
      w.window.sql = "WINDOW TUMBLING (SIZE 1 MINUTES)" ∧
      w.Behind front "DEDUP-RATES".toList hyphenText.toList rest ∧
      ¬ ' ' :: w.window.sql.toList <+: rest := by
  have hrun : (({} : Compiler).run ⟨0⟩ hyphenRows (.windowed { name := "w", timeframe := "1m" })
      (Memo.start none)).1 = .ok (.one hyphenText) := by decide +kernel
  obtain ⟨d, w, hd, hw, -, -, hclauses⟩ := window_behind_source_iff {} ⟨0⟩ hyphenRows
    (.windowed { name := "w", timeframe := "1m" }) (Memo.start none) (.one hyphenText) rfl hrun
    hyphenText (mem_singleton_self _)
  have hstatement : (({} : Compiler).rawClauses hyphenRows
      (WindowedTarget.plan { name := "w", timeframe := "1m" } hyphenRows none)
      (Memo.start none)).1.map (fun raw =>
        let s := (WindowedTarget.plan { name := "w", timeframe := "1m" } hyphenRows none).statement
          hyphenRows raw
        (s.upToSource, s.clauses)) = .ok (hyphenFront, hyphenClauses) := by decide +kernel
  have hwindow : Window.sql (WindowedTarget.window { name := "w", timeframe := "1m" }
      hyphenRows.grace) = "WINDOW TUMBLING (SIZE 1 MINUTES)" := by decide +kernel
  cases hw
  cases hd with
  | windowed _ _ raw h =>
    have hraw : (({} : Compiler).rawClauses hyphenRows
        (WindowedTarget.plan { name := "w", timeframe := "1m" } hyphenRows none)
        (Memo.start none)).1 = .ok raw := h
    rw [hraw] at hstatement
    obtain ⟨hfront, hparts⟩ := Prod.mk.inj (Except.ok.inj hstatement)
    have hbehind : (WindowedTarget.plan { name := "w", timeframe := "1m" } hyphenRows none
        |>.statement hyphenRows raw).behindSource none = "\nEMIT CHANGES;" := by
      unfold CreateStatement.behindSource
      rw [hparts]
      decide +kernel
    have honly : OnlyFrom hyphenFront.toList ("DEDUP-RATES".toList ++ [])
        "\nEMIT CHANGES;".toList := by decide +kernel
    rw [← hfront, ← hbehind] at honly
    obtain ⟨rest, hrest, hiff⟩ := hclauses rfl rfl { left := "DEDUP-RATES", aliased := false }
      ((congrArg Clauses.source hparts).trans (by decide +kernel)) (by decide) honly
      fun _ hasks => by cases hasks
    refine ⟨hrun, _, _, rest, rfl, hwindow, hrest, fun hprefix => ?_⟩
    exact absurd (hiff.1 hprefix).1 (by decide +kernel)

end StreamQuery
