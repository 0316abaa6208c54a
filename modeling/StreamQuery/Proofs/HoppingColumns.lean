import StreamQuery.Proofs.HubBuckets
import StreamQuery.Proofs.InputOverride
import StreamQuery.Proofs.StartColumns

/-!
# The SELECT lists of hopping statements

A hopping statement is to lose the columns that are the window start, or to have the end of its
window for them, and to stay as it is apart from that.  `keptColumn` says what is to become of each
column.  The statement is what it is to be exactly if all that the edits find in it are columns of
this sort (`OnlyStarts`, `dropChars_columns_iff`).  A window start in a cast is found as well, with
the type for its name, and so is one in a literal.
-/

namespace StreamQuery

open List

namespace WindowStart

open Text
open Placement (fromLine)

/-! ## Columns with names -/

/-- The text of a SELECT list. -/
def columnsText (columns : List (String × String)) : List Char :=
  (joined ", " (columns.map columnItem)).toList

/-- A list has a separator behind its first column if there are others. -/
lemma columnsText_cons (column : String × String) (more : List (String × String)) :
    columnsText (column :: more) = (columnItem column).toList ++
      ((if more.isEmpty then [] else separator) ++ columnsText more) := by
  unfold columnsText
  cases more with
  | nil =>
    simp [joined]
  | cons next more =>
    have hcons : joined ", " (columnItem column :: columnItem next :: more.map columnItem) =
        columnItem column ++ ", " ++ joined ", " (columnItem next :: more.map columnItem) :=
      String.intercalate_cons_cons
    rw [map_cons, map_cons, hcons, String.toList_append, String.toList_append, append_assoc]
    rfl

/-- A column is the window start: its expression is, ignoring case, and its name is an
identifier. -/
def IsStart (column : String × String) : Prop :=
  SameFolded column.1.toList "WINDOWSTART".toList ∧ Placement.isName column.2.toList = true

/-- It can be checked whether a column is the window start. -/
instance (column : String × String) : Decidable (IsStart column) :=
  inferInstanceAs (Decidable (_ ∧ _))

/-- What is to become of a column: the window start goes, or becomes the end of the window if it is
named `EndTs` and the projection asks for the start; any other column stays. -/
def keptColumn (asks : Bool) (column : String × String) : Option (String × String) :=
  if IsStart column then
    if asks = true ∧ SameFolded column.2.toList "ENDTS".toList then some ("WINDOWEND", "EndTs")
    else none
  else some column

lemma keptColumn_of_not {column : String × String} (h : ¬ IsStart column) (asks : Bool) :
    keptColumn asks column = some column :=
  if_neg h

/-- The window start as a column. -/
def IsStart.column {column : String × String} (h : IsStart column) : StartColumn where
  word := column.1.toList
  name := column.2.toList
  isStart := h.1
  isName := h.2

lemma IsStart.text_column {column : String × String} (h : IsStart column) :
    h.column.text = (columnItem column).toList := by
  rw [columnItem, String.toList_append, String.toList_append, append_assoc]
  rfl

/-- The window start becomes the end of the window. -/
lemma IsStart.keptColumn_end {column : String × String} (h : IsStart column) {asks : Bool}
    (hend : asks ∧ h.column.IsEnd) :
    keptColumn asks column = some ("WINDOWEND", "EndTs") := by
  rw [keptColumn, if_pos h]
  exact if_pos hend

lemma IsStart.keptColumn_gone {column : String × String} (h : IsStart column) {asks : Bool}
    (hend : ¬ (asks ∧ h.column.IsEnd)) : keptColumn asks column = none := by
  rw [keptColumn, if_pos h]
  exact if_neg hend

/-- The parts of a SELECT list and what follows it. -/
def listing (behind : List Char) : List (String × String) → Listing
  | [] => .tail (fromLine ++ behind)
  | [column] =>
    if h : IsStart column then .last h.column behind
    else .tail ((columnItem column).toList ++ (fromLine ++ behind))
  | column :: next :: more =>
    if h : IsStart column then .start h.column (listing behind (next :: more))
    else .other (columnItem column).toList (listing behind (next :: more))

section

variable (behind : List Char)

lemma text_listing (columns : List (String × String)) :
    (listing behind columns).text = columnsText columns ++ (fromLine ++ behind) := by
  fun_induction listing behind columns with
  | case1 => rfl
  | case2 column h =>
    rw [Listing.text, h.text_column, columnsText_cons]
    simp [columnsText, joined]
  | case3 column h =>
    rw [Listing.text, columnsText_cons]
    simp [columnsText, joined]
  | case4 column next more h ih =>
    rw [Listing.text, ih, h.text_column, columnsText_cons column]
    simp only [append_assoc]
    rfl
  | case5 column next more h ih =>
    rw [Listing.text, ih, columnsText_cons column]
    simp only [append_assoc]
    rfl

/-- Nothing is left of a list if none of its columns is kept. -/
lemma bare_listing (asks : Bool) (column : String × String) (more : List (String × String)) :
    (listing behind (column :: more)).bare asks =
      ((column :: more).filterMap (keptColumn asks)).isEmpty := by
  induction more generalizing column with
  | nil =>
    unfold listing
    split
    · next h =>
      rw [Listing.bare]
      by_cases hend : asks ∧ h.column.IsEnd
      · rw [filterMap_cons_some (h.keptColumn_end hend), decide_eq_true hend]
        rfl
      · rw [filterMap_cons_none (h.keptColumn_gone hend), decide_eq_false hend]
        rfl
    · next h => rw [filterMap_cons_some (keptColumn_of_not h asks)]; rfl
  | cons next more ih =>
    unfold listing
    split
    · next h =>
      rw [Listing.bare]
      by_cases hend : asks ∧ h.column.IsEnd
      · rw [filterMap_cons_some (h.keptColumn_end hend), decide_eq_true hend]
        rfl
      · rw [filterMap_cons_none (h.keptColumn_gone hend), decide_eq_false hend, ih next]
        rfl
    · next h => rw [filterMap_cons_some (keptColumn_of_not h asks)]; rfl

/-- The text that is meant is that of the columns that are kept. -/
lemma kept_listing (asks : Bool) (columns : List (String × String)) :
    (listing behind columns).kept asks =
      columnsText (columns.filterMap (keptColumn asks)) ++ (fromLine ++ behind) := by
  have hwindow : (columnItem ("WINDOWEND", "EndTs")).toList = windowEnd := rfl
  have hnil : columnsText [] = [] := rfl
  fun_induction listing behind columns with
  | case1 => rfl
  | case2 column h =>
    rw [Listing.kept]
    by_cases hend : asks ∧ h.column.IsEnd
    · rw [filterMap_cons_some (h.keptColumn_end hend), if_pos hend, ← hwindow]
      simp [columnsText_cons, hnil]
    · rw [filterMap_cons_none (h.keptColumn_gone hend), if_neg hend]
      rfl
  | case3 column h =>
    rw [Listing.kept, filterMap_cons_some (keptColumn_of_not h asks)]
    simp [columnsText_cons, hnil]
  | case4 column next more h ih =>
    rw [Listing.kept, Listing.separated, bare_listing]
    by_cases hend : asks ∧ h.column.IsEnd
    · rw [filterMap_cons_some (h.keptColumn_end hend), if_pos hend, ih, columnsText_cons,
        hwindow]
      simp only [append_assoc]
    · rw [filterMap_cons_none (h.keptColumn_gone hend), if_neg hend, ih]
  | case5 column next more h ih =>
    rw [Listing.kept, Listing.separated, bare_listing,
      filterMap_cons_some (keptColumn_of_not h asks), ih, columnsText_cons column]
    simp only [append_assoc]

/-- A list is divided at its first member or at a later one. -/
lemma exists_cons_eq_append {α : Type} {a : α} {l : List α} {P : α → List α → Prop} :
    (∃ earlier b later, a :: l = earlier ++ b :: later ∧ P b later) ↔
      P a l ∨ ∃ earlier b later, l = earlier ++ b :: later ∧ P b later := by
  constructor
  · rintro ⟨earlier, b, later, hsplit, hP⟩
    cases earlier with
    | nil =>
      obtain ⟨rfl, rfl⟩ := List.cons.inj hsplit
      exact .inl hP
    | cons c earlier => exact .inr ⟨earlier, b, later, (List.cons.inj hsplit).2, hP⟩
  · rintro (hP | ⟨earlier, b, later, rfl, hP⟩)
    · exact ⟨[], a, l, rfl, hP⟩
    · exact ⟨a :: earlier, b, later, rfl, hP⟩

/-- A window start begins where a column that is one does. -/
lemma begins_listing (z : List Char) (columns : List (String × String)) :
    (listing behind columns).Begins z ↔ ∃ earlier column later,
      columns = earlier ++ column :: later ∧ IsStart column ∧
        z = columnsText (column :: later) ++ (fromLine ++ behind) := by
  -- the columns from here on
  have htext : ∀ column more, columnsText (column :: more) ++ (fromLine ++ behind) =
      (listing behind (column :: more)).text := fun column more => (text_listing ..).symm
  have hnone : ¬ ∃ (earlier : List (String × String)) (column : String × String)
      (later : List (String × String)), [] = earlier ++ column :: later ∧ IsStart column ∧
        z = columnsText (column :: later) ++ (fromLine ++ behind) := by simp
  fun_induction listing behind columns with
  | case1 => exact iff_of_false id hnone
  | case2 column h =>
    rw [exists_cons_eq_append, htext, listing, dif_pos h]
    exact ⟨fun hz => .inl ⟨h, hz⟩, fun hz => (hz.resolve_right hnone).2⟩
  | case3 column h =>
    rw [exists_cons_eq_append]
    exact ⟨False.elim, fun hz => h (hz.resolve_right hnone).1⟩
  | case4 column next more h ih =>
    refine (or_congr ?_ ih).trans exists_cons_eq_append.symm
    rw [htext, listing, dif_pos h]
    exact ⟨fun hz => ⟨h, hz⟩, fun hz => hz.2⟩
  | case5 column next more h ih =>
    refine ih.trans (Iff.trans ?_ exists_cons_eq_append.symm)
    exact ⟨.inr, fun hz => hz.resolve_left fun hstart => h hstart.1⟩

/-- A column begins with something else than white space. -/
def Opens (column : String × String) : Prop :=
  (column.1.toList.head?.any fun c => !isBlank c) = true

/-- It can be checked how a column begins. -/
instance (column : String × String) : Decidable (Opens column) :=
  inferInstanceAs (Decidable (_ = _))

lemma head_listing {column : String × String} (h : Opens column) (more : List (String × String)) :
    (listing behind (column :: more)).text.head?.any isBlank = false := by
  rw [text_listing, columnsText_cons, columnItem, String.toList_append, String.toList_append]
  unfold Opens at h
  cases hchars : column.1.toList with
  | nil =>
    rw [hchars] at h
    cases h
  | cons c chars =>
    rw [hchars, head?_cons, Option.any_some, Bool.not_eq_true'] at h
    exact h

lemma apart_listing {columns : List (String × String)} (h : ∀ column ∈ columns, Opens column) :
    (listing behind columns).Apart isBlank := by
  fun_induction listing behind columns with
  | case4 column next more hstart ih =>
    have hmore := (forall_mem_cons.1 h).2
    exact ⟨head_listing behind (hmore next (mem_cons_self ..)) more, ih hmore⟩
  | case5 column next more hstart ih =>
    have hmore := (forall_mem_cons.1 h).2
    exact ⟨head_listing behind (hmore next (mem_cons_self ..)) more, ih hmore⟩
  | _ => trivial

end

/-! ## Statements -/

/-- What is before the SELECT list: the end of the sink and a line's beginning. -/
def selectLine : List Char :=
  ") AS\nSELECT ".toList

/-- A statement with its SELECT list. -/
def statementText (front : List Char) (columns : List (String × String)) (behind : List Char) :
    List Char :=
  front ++ (selectLine ++ (columnsText columns ++ (fromLine ++ behind)))

/-- All that is found in a statement are columns that are the window start. -/
def OnlyStarts (front : List Char) (columns : List (String × String)) (behind : List Char) : Prop :=
  ∀ z, z <:+ statementText front columns behind → isFound z = true →
    ∃ earlier column later, columns = earlier ++ column :: later ∧ IsStart column ∧
      z = columnsText (column :: later) ++ (fromLine ++ behind)

lemma passed_selectLine : Passed selectLine :=
  passed_of_inert (by decide)

/-- What is before the SELECT list is edited by itself. -/
lemma dropChars_selectLine (asks : Bool) (front rest : List Char) :
    dropChars asks (front ++ (selectLine ++ rest)) =
      dropChars asks front ++ (selectLine ++ dropChars asks rest) := by
  have hstrip : ∀ front rest : List Char, strip (front ++ (selectLine ++ rest)) =
      strip front ++ (selectLine ++ strip rest) := by
    intro front rest
    rw [← passed_selectLine.strip]
    exact (afterColumn?_haltsAt (c := ')') (by decide) (by decide)).substitute_append rfl front _
  have hend : ∀ front rest : List Char, toEnd (front ++ (selectLine ++ rest)) =
      toEnd front ++ (selectLine ++ toEnd rest) := by
    intro front rest
    rw [← passed_selectLine.toEnd]
    exact (afterEnd?_haltsAt (c := ')') (by decide)).substitute_append rfl front _
  have hdangling : ∀ front rest : List Char, dropDangling (front ++ (selectLine ++ rest)) =
      dropDangling front ++ (selectLine ++ dropDangling rest) := by
    intro front rest
    rw [← passed_selectLine.dropDangling]
    exact substitute_append rfl fun y _ hne => afterDangling?_stop (c := ')') (by decide) hne _
  unfold dropChars
  cases asks with
  | true => simp only [if_true, hstrip, hend, hdangling]
  | false => simp only [Bool.false_eq_true, if_false, hstrip, hend, hdangling]

/-- A statement loses the columns that are the window start, or has the end of the window for them,
and stays as it is apart from that, exactly if all that is found in it are such columns. -/
theorem dropChars_columns_iff (asks : Bool) (front : List Char) {columns : List (String × String)}
    (behind : List Char) (h : ∀ column ∈ columns, Opens column) :
    dropChars asks (statementText front columns behind) =
        statementText front (columns.filterMap (keptColumn asks)) behind ↔
      OnlyStarts front columns behind := by
  have hapart := apart_listing behind h
  have hfront : KeptOrLighter 1 (Quiet front) (dropChars asks front) front :=
    Listing.dropChars_keptOrLighter (l := .tail front) trivial asks
  have hboth := hfront.append ((Listing.dropChars_keptOrLighter hapart asks).append_left selectLine)
  have hstop : ∀ y, y ≠ [] →
      isFound (y ++ (selectLine ++ (listing behind columns).text)) = isFound y := fun y hne =>
    isFound_stop (c := ')') (by decide) hne _
  have hbetween : ∀ z, z <:+ selectLine → z ≠ [] →
      isFound (z ++ (listing behind columns).text) = false := by
    intro z hz hne
    obtain ⟨hword, hdangling⟩ := passed_selectLine z hz hne (listing behind columns).text
    rw [isFound_eq_false, afterColumn?, afterEnd?, hword]
    exact ⟨⟨rfl, rfl⟩, hdangling⟩
  have honly : OnlyStarts front columns behind ↔
      Quiet front ∧ (listing behind columns).All Quiet := by
    rw [← Listing.forall_begins_iff hapart,
      ← forall_found_append_iff hstop hbetween fun z hz => hz.suffix]
    simp only [OnlyStarts, statementText, begins_listing, text_listing]
  rw [honly, ← hboth.eq_iff (by decide), statementText, statementText, ← text_listing,
    ← kept_listing, dropChars_selectLine]

end WindowStart

open WindowStart
open Placement (fromLine)

/-- A statement with its window, before the window starts are taken out. -/
def Windowing.placed (w : Windowing) (sql : String) : List Char :=
  (Placement.spotIn? (w.plain sql)).elim (w.plain sql) fun spot =>
    spot.1 ++ ' ' :: w.window.sql.toList ++ spot.2

lemma Windowing.text_of_asks {w : Windowing} {asks : Bool} (h : w.asksForStart = some asks)
    (sql : String) : w.text sql = dropChars asks (w.placed sql) := by
  rw [text, finish, h]
  rfl

lemma CreateStatement.upToSource_eq (s : CreateStatement) :
    ∃ front, s.upToSource.toList = front ++ (selectLine ++ s.clauses.select.toList) := by
  refine ⟨("CREATE " ++ s.kind.keyword ++ " IF NOT EXISTS " ++ s.name ++ " " ++
    ("WITH (" ++ Text.joined ", " s.sink.parts)).toList, ?_⟩
  unfold upToSource SinkProperties.sql
  simp only [String.toList_append, append_assoc]
  rfl

namespace Compiler

variable {c : Compiler} {scope : Scope} {q : Query}

lemma Composes.rawClauses {step : Step} {memo : Memo} {d : Composition}
    (h : c.Composes scope q step memo d) :
    ∃ memo', (c.rawClauses q d.plan memo').1 = .ok d.raw := by
  induction h with
  | create target memo raw h => exact ⟨memo, h⟩
  | windowed target memo raw h => exact ⟨_, h⟩
  | hopping target memo window raw hwindow h => exact ⟨memo, h⟩
  | all nameFor memo earlier later timeframe d hwindows h ih => exact ih

/-- The SELECT list of a record projection is that of the columns of the record. -/
lemma Composes.select_of_record {step : Step} {memo : Memo} {d : Composition}
    (h : c.Composes scope q step memo d) {projection : Lambda} {typeName : Option String}
    {members : List (String × Expr)} (hprojection : d.plan.projection = some projection)
    (hrecord : projection.body = .record typeName members) :
    ∃ (context : ColumnContext) (l : ColumnList),
      context.ofRecord projection.isGrouped typeName members = .ok l ∧
        d.raw.select = selectList l.items := by
  obtain ⟨memo', hraw⟩ := h.rawClauses
  obtain ⟨-, -, hselect, -⟩ := c.parts_of_rawClauses q hraw
  unfold select at hselect
  rw [hprojection] at hselect
  obtain ⟨selection, -, hselect⟩ := ok_of_bind hselect
  obtain ⟨body, hbody, hselect⟩ := ok_of_bind hselect
  rw [← (Prod.mk.inj (Except.ok.inj hselect)).1]
  exact ⟨_, ColumnContext.columns_of_selectBody hrecord hbody⟩

end Compiler

/-- The text of a hopping step is the finished statement with its window, and the window starts
taken out. A record projection has a SELECT list of its columns, behind the sink and the word
SELECT. Read the statement as a SELECT list with something before and behind it, where no column
begins with white space. The text has the columns that are to be kept, and is otherwise unchanged,
exactly if all that the edits find anywhere are columns whose expression is the window start. They
look for a window start with a name behind AS, one that is named `EndTs`, and a comma before FROM on
a new line, also inside of a column. -/
theorem hopping_columns_iff (c : Compiler) (scope : Scope) (q : Query) (step : Step) (memo : Memo)
    (output : Output) (hstep : step.hasWindow = true)
    (hrun : (c.run scope q step memo).1 = .ok output) (sql : String) (hsql : sql ∈ output.texts) :
    ∃ d w, c.Composes scope q step memo d ∧ c.windowing? q memo step = some w ∧
      (∀ projection typeName members, d.plan.projection = some projection →
        projection.body = .record typeName members →
        ∃ (context : ColumnContext) (l : ColumnList),
          context.ofRecord projection.isGrouped typeName members = .ok l ∧
            d.raw.select = selectList l.items) ∧
      (∃ front, (d.statement q).upToSource.toList =
        front ++ (selectLine ++ (d.statement q).clauses.select.toList)) ∧
      ∀ asks, w.asksForStart = some asks → ∀ front columns behind,
        (∀ column ∈ columns, Opens column) →
        w.placed (d.statement q).sql = statementText front columns behind →
        (sql.toList = statementText front (columns.filterMap (keptColumn asks)) behind ↔
          OnlyStarts front columns behind) := by
  obtain ⟨d, w, hd, hw, htext⟩ := c.text_of_run scope q hstep hrun hsql
  refine ⟨d, w, hd, hw, fun _ _ _ => hd.select_of_record, (d.statement q).upToSource_eq, ?_⟩
  intro asks hasks front columns behind hopens hplaced
  have hdropped : sql.toList = dropChars asks (statementText front columns behind) := by
    rw [htext, Windowing.text_of_asks hasks]
    exact congrArg (dropChars asks) hplaced
  rw [hdropped]
  exact dropChars_columns_iff asks front behind hopens

/-- A query with a note on each group, over a hopping window. -/
def notedGroups : Query :=
  Query.Draft.build
    { sources := [{ typeName := "T" }]
      groupBy := some ⟨[⟨"x", .unknown⟩], .member (.param ⟨"x", .unknown⟩) "A" .unknown false⟩
      projection := some ⟨[⟨"g", .grouping .string (.record "T")⟩], .record none
        [("S", .const (.string "windowstart as x"))]⟩
      hopping := some { size := ⟨60000⟩, advance := ⟨10000⟩ } } 0

/-- The target of its statement. -/
def notedTarget : HoppingTarget :=
  { target := { name := "c" } }

/-- The statement before its columns. -/
def notedFront : List Char :=
  "CREATE TABLE IF NOT EXISTS c WITH (".toList ++ "KAFKA_TOPIC='c', VALUE_FORMAT='AVRO', ".toList ++
    "PARTITIONS=1, REPLICAS=1".toList

/-- The one column of the statement, which is a literal. -/
def notedColumns : List (String × String) :=
  [("'windowstart as x'", "S")]

/-- The statement behind its source. -/
def notedBehind : List Char :=
  "\nGROUP BY A\nEMIT CHANGES;".toList

/-- The statement from its source on, with the window. -/
def notedWindow : List Char :=
  "T".toList ++ " WINDOW HOPPING (SIZE 1 MINUTES, ".toList ++ "ADVANCE BY 10 SECONDS)".toList ++
    notedBehind

/-- The literal mentions the window start, and does not stay as it is. -/
theorem hopping_columns_notedGroups :
    ∃ sql d w, (({} : Compiler).run ⟨0⟩ notedGroups (.hopping notedTarget) (Memo.start none)).1 =
        .ok (.one sql) ∧
      ({} : Compiler).windowing? notedGroups (Memo.start none) (.hopping notedTarget) = some w ∧
      w.asksForStart = some false ∧
      w.placed (Composition.statement d notedGroups).sql =
        statementText notedFront notedColumns notedWindow ∧
      notedColumns.filterMap (keptColumn false) = notedColumns ∧
      sql.toList ≠ statementText notedFront notedColumns notedWindow := by
  have hstatement : (({} : Compiler).rawClauses notedGroups (notedTarget.plan notedGroups)
      (Memo.start none)).1.map (fun raw => ((notedTarget.plan notedGroups).statement notedGroups
        raw).sql) = .ok (String.ofList (statementText notedFront notedColumns
          ("T".toList ++ notedBehind))) := by decide +kernel
  obtain ⟨raw, hraw, hsql⟩ := Compiler.ok_of_map_ok hstatement
  -- the place of the window, and where the literal is found
  have htexts : Placement.spotIn? (statementText notedFront notedColumns
      ("T".toList ++ notedBehind)) = some (statementText notedFront notedColumns "T".toList,
        notedBehind) ∧
      (Window.hopping { size := ⟨60000⟩, advance := ⟨10000⟩ }).sql.toList =
        "WINDOW HOPPING (SIZE 1 MINUTES, ".toList ++ "ADVANCE BY 10 SECONDS)".toList ∧
      columnsText notedColumns = ['\''] ++ "windowstart as x' AS S".toList ∧
      isFound ("windowstart as x' AS S".toList ++ (fromLine ++ notedWindow)) := by
    decide +kernel
  obtain ⟨hspot, htext, hliteral, hfound⟩ := htexts
  have hwindow : notedTarget.window ⟨0⟩ notedGroups =
      .ok (.hopping { size := ⟨60000⟩, advance := ⟨10000⟩ }) := by decide
  have hrun := Compiler.run_hopping_withInput hwindow hraw none
  obtain ⟨d, w, hd, hw, -, -, hcolumns⟩ := hopping_columns_iff {} ⟨0⟩ notedGroups
    (.hopping notedTarget) (Memo.start none) _ rfl hrun _ (mem_singleton_self _)
  have hplain : (({} : WindowOverrides).text (d.statement notedGroups).sql).toList =
      statementText notedFront notedColumns ("T".toList ++ notedBehind) := by
    rw [Compiler.statement_of_hopping (o := none) hd hraw, hsql]
    exact String.toList_ofList
  cases hw
  have hplaced : Windowing.placed ⟨{}, .hopping { size := ⟨60000⟩, advance := ⟨10000⟩ }, some false⟩
      (d.statement notedGroups).sql = statementText notedFront notedColumns notedWindow := by
    rw [Windowing.placed, Windowing.plain, hplain, hspot, Option.elim_some, htext]
    simp only [statementText, notedWindow, append_assoc]
    rfl
  have hkept : notedColumns.filterMap (keptColumn false) = notedColumns := by decide
  refine ⟨_, d, _, hrun, rfl, rfl, hplaced, hkept, fun heq => ?_⟩
  have honly := (hcolumns false rfl notedFront notedColumns notedWindow (by decide) hplaced).1
    (by rw [hkept]; exact heq)
  have hsuffix : "windowstart as x' AS S".toList ++ (fromLine ++ notedWindow) <:+
      statementText notedFront notedColumns notedWindow := by
    refine ⟨notedFront ++ (selectLine ++ ['\'']), ?_⟩
    rw [statementText, hliteral]
    simp only [append_assoc]
  obtain ⟨earlier, column, later, hsplit, hstart, -⟩ := honly _ hsuffix hfound
  have hcolumn : column ∈ notedColumns := by rw [hsplit]; simp
  have hnone : ∀ column ∈ notedColumns, ¬ IsStart column := by decide
  exact hnone column hcolumn hstart

end StreamQuery
