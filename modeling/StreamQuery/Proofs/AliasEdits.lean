import StreamQuery.Proofs.KeyPathEdits

/-!
# Aliases and quotation marks

A reference behind an alias is a plain name or a name in backticks or double quotes, so dropping
aliases from a clause does not reach across quotation marks (`dropFromClause_parts`).  In a SELECT
list anything can stand between backticks or double quotes, so there the edit of a literal is that
of the literal alone only if there are none around it (`dropFromSelect_literal`).
-/

namespace StreamQuery.AliasScope

open Text List

variable {aliasName : List Char} {f : Form}

/-! ## References -/

namespace Form

variable {f : Form} {rest column : List Char}

/-- A form whose columns hold no mark and are not put in marks. -/
structure Unmarked (f : Form) : Prop where
  quote : f.quote ≠ some '\''
  holds : f.holds '\'' = false

/-- The column of a reference without quotation marks. -/
lemma column?_plain (hquote : f.quote = none) (rest : List Char) :
    f.column? rest =
      if (rest.takeWhile f.holds).head?.any f.starts then some (rest.takeWhile f.holds)
      else none := by
  unfold column?
  rw [hquote]
  rfl

/-- The column of a reference in quotation marks. -/
lemma column?_quoted {q : Char} (hquote : f.quote = some q) (first : Char) (inner : List Char) :
    f.column? (first :: inner) =
      if first = q ∧ (inner.takeWhile f.holds).head?.any f.starts ∧
          (inner.dropWhile f.holds).head? = some q then some (inner.takeWhile f.holds)
      else none := by
  have hdrop : inner.drop (inner.takeWhile f.holds).length = inner.dropWhile f.holds := by
    have happend := takeWhile_append_dropWhile (p := f.holds) (l := inner)
    have hdrop := congrArg (drop (inner.takeWhile f.holds).length) happend
    rw [drop_left] at hdrop
    exact hdrop.symm
  unfold column? name?
  rw [hquote]
  by_cases hfirst : first = q
  · by_cases hstarts : (inner.takeWhile f.holds).head?.any f.starts
    · simp [hfirst, hstarts, Option.filter, hdrop]
    · simp [hfirst, hstarts]
  · simp [hfirst]

/-- A reference begins with its column in its quotation marks. -/
lemma column?_split (h : f.column? rest = some column) :
    column = rest.takeWhile f.holds ∧ f.quote = none ∨
      ∃ q inner, f.quote = some q ∧ rest = q :: inner ∧ column = inner.takeWhile f.holds ∧
        (inner.dropWhile f.holds).head? = some q := by
  cases hquote : f.quote with
  | none =>
    rw [column?_plain hquote] at h
    split at h
    · cases h
      exact .inl ⟨rfl, rfl⟩
    · cases h
  | some q =>
    obtain _ | ⟨first, inner⟩ := rest
    · unfold column? at h
      rw [hquote] at h
      cases h
    · rw [column?_quoted hquote] at h
      split at h
      · next hcolumn =>
        cases h
        exact .inr ⟨q, inner, rfl, by rw [hcolumn.1], rfl, hcolumn.2.2⟩
      · cases h

lemma column?_append (h : f.column? rest = some column) :
    ∃ after, rest = f.write column ++ after := by
  unfold write
  rcases column?_split h with ⟨rfl, hquote⟩ | ⟨q, inner, hquote, rfl, rfl, hend⟩
  · rw [hquote]
    exact ⟨_, (takeWhile_append_dropWhile ..).symm⟩
  · obtain ⟨after, hafter⟩ := head?_eq_some_iff.1 hend
    rw [hquote]
    refine ⟨after, ?_⟩
    nth_rewrite 1 [← takeWhile_append_dropWhile (p := f.holds) (l := inner)]
    rw [hafter]
    simp

lemma Unmarked.not_mem_write (hf : f.Unmarked) (h : f.column? rest = some column) :
    '\'' ∉ f.write column := by
  unfold write
  rcases column?_split h with ⟨rfl, hquote⟩ | ⟨q, inner, hquote, rfl, rfl, hend⟩
  · rw [hquote]
    exact not_mem_takeWhile hf.holds rest
  · have hq : '\'' ≠ q := fun heq => hf.quote (by rw [hquote, heq])
    have hcolumn := not_mem_takeWhile hf.holds inner
    rw [hquote]
    simp [hq, hcolumn]

lemma Unmarked.column?_ahead (hf : f.Unmarked) {u : List Char} (hu : '\'' ∈ u) (post : List Char) :
    f.column? (u ++ post) = f.column? u := by
  cases hquote : f.quote with
  | none =>
    rw [column?_plain hquote, column?_plain hquote, takeWhile_append_of_mem hf.holds hu]
  | some q =>
    obtain _ | ⟨first, inner⟩ := u
    · cases hu
    · rw [cons_append, column?_quoted hquote, column?_quoted hquote]
      by_cases hfirst : first = q
      · have hne : '\'' ≠ first := fun heq => hf.quote (by rw [hquote, heq, hfirst])
        have hinner := (mem_cons.1 hu).resolve_left hne
        rw [takeWhile_append_of_mem hf.holds hinner, dropWhile_append_of_mem hf.holds hinner,
          head?_append_of_mem (mem_dropWhile hf.holds hinner)]
      · rw [if_neg fun h => hfirst h.1, if_neg fun h => hfirst h.1]

end Form

/-- A reference is the alias with its dot, the column and what follows. -/
lemma reference?_split (halias : '\'' ∉ aliasName) {before rest column : List Char}
    (h : reference? aliasName f before rest = some column) :
    ∃ lead after, rest = lead ++ (f.write column ++ after) ∧ lead.length = aliasName.length + 1 ∧
      '\'' ∉ lead ∧ f.column? (f.write column ++ after) = some column := by
  unfold reference? at h
  split at h
  · obtain ⟨behind, hbehind, hcolumn⟩ := Option.bind_eq_some_iff.1 h
    obtain ⟨lead, rfl, hlength, hmark⟩ := dropFolded?_split hbehind
    obtain ⟨after, rfl⟩ := Form.column?_append hcolumn
    refine ⟨lead, after, rfl, ?_, hmark ?_, hcolumn⟩
    · rw [hlength, length_append, length_singleton]
    · simp [halias]
  · cases h

/-- A reference is found without looking across marks, if its column is. -/
lemma reference?_ahead (halias : '\'' ∉ aliasName) (before : List Char) {u post : List Char}
    (hu : '\'' ∈ u)
    (hcolumn : ∀ after, '\'' ∈ after → f.column? (after ++ post) = f.column? after) :
    reference? aliasName f before (u ++ post) = reference? aliasName f before u := by
  have hdot : '\'' ∉ aliasName ++ ['.'] := by simp [halias]
  unfold reference?
  rw [wordBoundary_ahead before hu, dropFolded?_append hdot hu]
  cases hbehind : dropFolded? (aliasName ++ ['.']) u with
  | none => rfl
  | some behind =>
    obtain ⟨lead, rfl, -, hmark⟩ := dropFolded?_split hbehind
    have hmem := (mem_append.1 hu).resolve_left (hmark hdot)
    simp only [Option.map_some, Option.bind_some, hcolumn behind hmem]

/-- What precedes a mark does not matter for a reference. -/
lemma reference?_behind (aliasName : List Char) (f : Form) (near before rest : List Char) :
    reference? aliasName f (near ++ '\'' :: before) rest =
      reference? aliasName f (near ++ ['\'']) rest := by
  unfold reference?
  rw [wordBoundary_behind]

lemma reference?_mark (halias : '\'' ∉ aliasName) (f : Form) (before rest : List Char) :
    reference? aliasName f before ('\'' :: rest) = none := by
  cases h : reference? aliasName f before ('\'' :: rest) with
  | none => rfl
  | some column =>
    obtain ⟨lead, after, hrest, hlength, hmark, -⟩ := reference?_split halias h
    have hzero := length_le_of_mark (y := []) hrest hmark
    rw [hlength] at hzero
    cases hzero

/-- A rule on references of an unmarked form does not reach across marks. -/
lemma referenceRule_local (halias : '\'' ∉ aliasName) (hf : f.Unmarked)
    (write : List Char → List Char) :
    (referenceRule aliasName f write).Local where
  ahead before u post hu := by
    unfold referenceRule
    rw [reference?_ahead halias before hu fun after hafter => hf.column?_ahead hafter post]
  behind near before rest := by
    unfold referenceRule
    rw [reference?_behind]
  taken before y n written h := by
    obtain ⟨column, hcolumn, hfound⟩ := Option.map_eq_some_iff.1 h
    cases hfound
    obtain ⟨lead, after, hrest, hlength, hmark, hwrite⟩ := reference?_split halias hcolumn
    rw [← append_assoc] at hrest
    have hle := length_le_of_mark hrest (by simp [hmark, hf.not_mem_write hwrite])
    rwa [length_append, hlength] at hle
  still before rest n written h := by
    rw [referenceRule, reference?_mark halias] at h
    cases h
  atEnd before n written h := by
    rw [referenceRule, reference?, wordBoundary_mark_nil] at h
    cases h

/-! ## Clauses other than SELECT -/

lemma unmarked_clauseForms (hf : f ∈ clauseForms) : f.Unmarked := by
  simp only [clauseForms, mem_cons, not_mem_nil, or_false] at hf
  rcases hf with rfl | rfl | rfl
  · exact ⟨by decide, by decide⟩
  · exact ⟨by decide, by decide⟩
  · exact ⟨by decide, by decide⟩

/-- Outside of SELECT, dropping aliases does not reach across marks. -/
theorem dropFromClause_parts {scopes : List AliasScope}
    (hscopes : ∀ scope ∈ scopes, '\'' ∉ scope.aliasName.toList) :
    QuoteLocal (overChars (dropFromClause scopes)) := by
  have hfold : overChars (dropFromClause scopes) = fun text =>
      scopes.foldl (fun text scope => clauseForms.foldl (fun text f =>
        substitute (referenceRule scope.aliasName.toList f (writeColumn scopes scope f)) text)
        text) text := by
    funext text
    rw [overChars, dropFromClause, String.toList_ofList, String.toList_ofList]
  have hscope : ∀ scope ∈ scopes, QuoteLocal fun text => clauseForms.foldl (fun text f =>
      substitute (referenceRule scope.aliasName.toList f (writeColumn scopes scope f)) text)
      text := by
    intro scope hscope
    refine QuoteLocal.foldl clauseForms fun f hf => ?_
    exact (referenceRule_local (hscopes scope hscope) (unmarked_clauseForms hf) _).substitute
  rw [hfold]
  exact QuoteLocal.foldl scopes hscope

/-! ## The SELECT list -/

section

variable {aliasName : List Char} (halias : '\'' ∉ aliasName) {q : Char} (hq : q ≠ '\'')
  {w : List Char → List Char}

variable {y : List Char}

include halias

lemma anyQuoted_none (before : List Char) {rest : List Char} (hrest : q ∉ rest) :
    referenceRule aliasName (anyQuoted q) w before rest = none := by
  cases h : reference? aliasName (anyQuoted q) before rest with
  | none => rw [referenceRule, h, Option.map_none]
  | some column =>
    obtain ⟨lead, after, rfl, -⟩ := reference?_split halias h
    exact absurd (by simp [Form.write, anyQuoted]) hrest

/-- What follows a mark does not matter if there are no quotation marks in it. -/
lemma anyQuoted_ahead (before y : List Char) {post : List Char} (hpost : q ∉ post) :
    referenceRule aliasName (anyQuoted q) w before (y ++ '\'' :: post) =
      referenceRule aliasName (anyQuoted q) w before (y ++ ['\'']) := by
  have happend : y ++ '\'' :: post = (y ++ ['\'']) ++ post := by simp
  unfold referenceRule
  rw [happend, reference?_ahead halias before (by simp) fun after hafter => ?_]
  obtain _ | ⟨first, inner⟩ := after
  · cases hafter
  rw [cons_append, Form.column?_quoted rfl, Form.column?_quoted rfl]
  have hstop : (anyQuoted q).holds q = false := by simp [anyQuoted]
  by_cases hmem : q ∈ inner
  · rw [takeWhile_append_of_mem hstop hmem, dropWhile_append_of_mem hstop hmem,
      head?_append_of_mem (mem_dropWhile hstop hmem)]
  · -- without a closing quotation mark there is no reference on either side
    have hopen : ∀ s : List Char, q ∉ s → (s.dropWhile (anyQuoted q).holds).head? ≠ some q := by
      intro s hs hhead
      obtain ⟨rest, hrest⟩ := head?_eq_some_iff.1 hhead
      refine hs ((dropWhile_sublist (anyQuoted q).holds).subset ?_)
      rw [hrest]
      exact mem_cons_self ..
    rw [if_neg fun h => hopen _ (by simp [hmem, hpost]) h.2.2, if_neg fun h => hopen _ hmem h.2.2]

lemma anyQuoted_self (before : List Char) {rest : List Char} (hrest : q ∉ rest) :
    substituteFrom (referenceRule aliasName (anyQuoted q) w) 0 before rest = rest := by
  induction rest generalizing before with
  | nil => simp only [substituteFrom, anyQuoted_none halias before hrest]
  | cons c rest ih =>
    simp only [substituteFrom, anyQuoted_none halias before hrest]
    rw [ih (c :: before) fun hmem => hrest (mem_cons_of_mem _ hmem)]

include hq

lemma anyQuoted_none_mark (before : List Char) (hy : q ∉ y) (post : List Char) :
    referenceRule aliasName (anyQuoted q) w before (y ++ '\'' :: post) = none := by
  cases h : reference? aliasName (anyQuoted q) before (y ++ '\'' :: post) with
  | none => rw [referenceRule, h, Option.map_none]
  | some column =>
    obtain ⟨lead, after, hrest, -, hmark, -⟩ := reference?_split halias h
    -- the opening quotation mark follows the alias, and so it is in `y` or the mark
    obtain ⟨suffix, rfl, hopen⟩ := split_before_mark hrest hmark
    have hhead := congrArg head? hopen
    obtain _ | ⟨c, suffix⟩ := suffix
    · exact absurd (Option.some.inj hhead) hq
    · obtain rfl : q = c := Option.some.inj hhead
      exact absurd (by simp) hy

lemma anyQuoted_taken {before written : List Char} {n : Nat}
    (h : referenceRule aliasName (anyQuoted q) w before (y ++ ['\'']) = some (n, written)) :
    n ≤ y.length := by
  obtain ⟨column, hcolumn, hfound⟩ := Option.map_eq_some_iff.1 h
  cases hfound
  obtain ⟨lead, after, hrest, hlength, -, -⟩ := reference?_split halias hcolumn
  obtain rfl | ⟨after', c, rfl⟩ := eq_nil_or_concat after
  · -- its last character would be the mark
    have hend : lead ++ ((anyQuoted q).write column ++ []) = (lead ++ q :: column) ++ [q] := by
      simp [Form.write, anyQuoted]
    rw [hend] at hrest
    exact absurd (singleton_inj.1 (append_inj' hrest rfl).2).symm hq
  · have hsize := congrArg length hrest
    simp only [length_append, length_singleton, length_concat, hlength] at hsize
    omega

/-- Before a mark, a text without quotation marks stays; behind it all starts anew. -/
lemma anyQuoted_upTo (before : List Char) (hy : q ∉ y) (post : List Char) :
    substituteFrom (referenceRule aliasName (anyQuoted q) w) 0 before (y ++ '\'' :: post) =
      y ++ '\'' ::
        substituteFrom (referenceRule aliasName (anyQuoted q) w) 0 ['\''] post := by
  have hbehind : ∀ near before rest,
      referenceRule aliasName (anyQuoted q) w (near ++ '\'' :: before) rest =
        referenceRule aliasName (anyQuoted q) w (near ++ ['\'']) rest := by
    intro near before rest
    unfold referenceRule
    rw [reference?_behind]
  induction y generalizing before with
  | nil =>
    have hnone := anyQuoted_none_mark (w := w) halias hq before hy post
    rw [nil_append] at hnone
    simp only [nil_append, substituteFrom, hnone]
    exact congrArg _ (substituteFrom_behind hbehind 0 [] before post)
  | cons c y ih =>
    have hnone := anyQuoted_none_mark (w := w) halias hq before hy post
    rw [cons_append] at hnone
    simp only [cons_append, substituteFrom, hnone]
    rw [ih (c :: before) fun hmem => hy (mem_cons_of_mem _ hmem)]

/-- Without quotation marks around a literal, quoted references are only found inside it. -/
lemma anyQuoted_edits {before lit post : List Char} (hlit : IsQuoted lit) (hbefore : q ∉ before)
    (hpost : q ∉ post) :
    IsQuoted (substitute (referenceRule aliasName (anyQuoted q) w) lit) ∧
      Edits (substitute (referenceRule aliasName (anyQuoted q) w)) before lit post
        before (substitute (referenceRule aliasName (anyQuoted q) w) lit) post := by
  obtain ⟨body, rfl⟩ := hlit
  have hmark : ∀ before post, q ∉ post →
      substituteFrom (referenceRule aliasName (anyQuoted q) w) 0 before ('\'' :: post) =
        '\'' :: post := by
    intro before post hpost
    exact anyQuoted_self halias before (by simp [hq, hpost])
  obtain ⟨inside, -, hinside⟩ := substituteFrom_part (P := fun post => q ∉ post)
    (g := fun post => post) (fun before y _ => anyQuoted_ahead (w := w) halias before y)
    (fun _ _ _ _ => anyQuoted_taken halias hq) hmark 0 ['\''] body (Nat.zero_le _)
  have halone : substitute (referenceRule aliasName (anyQuoted q) w)
      ('\'' :: (body ++ ['\''])) = '\'' :: (inside ++ ['\'']) := by
    have hupTo := anyQuoted_upTo (w := w) halias hq [] (not_mem_nil) (body ++ ['\''])
    rw [hinside [] not_mem_nil] at hupTo
    exact hupTo
  have hquiet : substitute (referenceRule aliasName (anyQuoted q) w) (before ++ ['\'']) =
      before ++ ['\''] := by
    rw [substitute, anyQuoted_self halias [] (by simp [hbefore, hq])]
  refine ⟨⟨inside, halone⟩, hquiet, ?_⟩
  have hupTo := anyQuoted_upTo (w := w) halias hq [] hbefore (body ++ '\'' :: post)
  rw [hinside post hpost] at hupTo
  rw [quoted_append, halone, substitute, hupTo]
  simp

end

/-- A SELECT list is kept, or loses the alias of the only source form by form. -/
lemma dropFromSelect_passes (scopes : List AliasScope) (preserve : Bool) :
    (overChars (dropFromSelect scopes preserve) = fun text => text) ∨ preserve = false ∧
      ∃ scope ∈ scopes, overChars (dropFromSelect scopes preserve) = fun text =>
        selectForms.foldl (fun text f =>
          substitute (referenceRule scope.aliasName.toList f f.write) text) text := by
  have hkept : (∀ text, dropFromSelect scopes preserve text = text) →
      overChars (dropFromSelect scopes preserve) = fun text => text := by
    intro hself
    funext text
    rw [overChars, hself, String.toList_ofList]
  rcases scopes with _ | ⟨scope, _ | ⟨joined, others⟩⟩
  · exact .inl (hkept fun _ => rfl)
  · cases preserve with
    | true => exact .inl (hkept fun _ => rfl)
    | false =>
      refine .inr ⟨rfl, scope, mem_singleton_self _, ?_⟩
      funext text
      rw [overChars, dropFromSelect, if_neg (by decide), String.toList_ofList, String.toList_ofList]
  · exact .inl (hkept fun _ => rfl)

/-- In a SELECT list, the edit does to a literal what it does to it alone, if there are no backticks
and double quotes around it. -/
theorem dropFromSelect_edits {scopes : List AliasScope}
    (hscopes : ∀ scope ∈ scopes, '\'' ∉ scope.aliasName.toList) (preserve : Bool)
    {before lit post : List Char} (hlit : IsQuoted lit)
    (hplain : preserve = false → ('\x60' ∉ before ∧ '\x60' ∉ post) ∧ ('"' ∉ before ∧ '"' ∉ post)) :
    IsQuoted (overChars (dropFromSelect scopes preserve) lit) ∧ ∃ before' post',
      Edits (overChars (dropFromSelect scopes preserve)) before lit post
        before' (overChars (dropFromSelect scopes preserve) lit) post' := by
  rcases dropFromSelect_passes scopes preserve with hkept | ⟨hdrops, scope, hscope, hpasses⟩
  · rw [hkept]
    exact ⟨hlit, before, post, rfl, rfl⟩
  · have halias := hscopes scope hscope
    have hname : Form.Unmarked ⟨none, isNameStart, isNameChar⟩ := ⟨by decide, by decide⟩
    obtain ⟨htick, hdouble⟩ := hplain hdrops
    obtain ⟨hlit₁, hedits₁⟩ := anyQuoted_edits (w := (anyQuoted '\x60').write) halias
      (by decide) hlit htick.1 htick.2
    obtain ⟨hlit₂, hedits₂⟩ := anyQuoted_edits (w := (anyQuoted '"').write) halias
      (by decide) hlit₁ hdouble.1 hdouble.2
    have hnames := referenceRule_local halias hname (Form.write ⟨none, isNameStart, isNameChar⟩)
    obtain ⟨hlit₃, before', post', hedits₃, -⟩ := hnames.substitute.edits hlit₂ before post
    rw [hpasses]
    exact ⟨hlit₃, before', post', hedits₃.comp (hedits₂.comp hedits₁)⟩

end StreamQuery.AliasScope

/-! ## The clauses of a statement -/

namespace StreamQuery

open Text

/-- The clauses that keep the constants of a query. -/
inductive RowClause where
  | select
  | filter
  | having
deriving DecidableEq

lemma FromClause.unmarked_scopes (f : FromClause) (sources : List Source) :
    ∀ scope ∈ f.scopes sources, '\'' ∉ scope.aliasName.toList := by
  intro scope hscope
  obtain ⟨⟨⟨aliasName, source⟩, i⟩, hmem, rfl⟩ := List.mem_map.1 hscope
  have haliases : (aliasName, source) ∈ f.aliases := List.fst_mem_of_mem_zipIdx hmem
  unfold aliases at haliases
  rcases List.mem_cons.1 haliases with hprimary | hjoined
  · cases hprimary
    exact (show '\'' ∉ primaryAlias.toList by decide)
  · obtain ⟨j, -, hj⟩ := List.mem_map.1 hjoined
    cases hj
    exact (show '\'' ∉ joinAlias.toList by decide)

namespace RawClauses

/-- The body of a clause as its writer leaves it. -/
def body? (r : RawClauses) : RowClause → Option String
  | .select => some r.select
  | .filter => r.filter
  | .having => r.having

/-- The edit of a clause: key paths, then aliases. -/
def editOf (r : RawClauses) (q : Query) (keyPath : KeyPathStyle) : RowClause → String → String
  | .select => fun body =>
    AliasScope.dropFromSelect (r.source.scopes q.sources) (q.primaryAlias || r.keepsAlias)
      (styleKeys (KeyBinding.ofQuery q keyPath) body)
  | .filter => r.edit q keyPath
  | .having => r.edit q keyPath

lemma edit_parts (r : RawClauses) {q : Query} (hq : q.HasPlainKeys) (keyPath : KeyPathStyle) :
    QuoteLocal (overChars (r.edit q keyPath)) := by
  unfold edit
  rw [overChars_comp]
  exact (AliasScope.dropFromClause_parts (r.source.unmarked_scopes q.sources)).comp
    (hq.styleKeys keyPath).parts

/-- Where an alias is dropped, a literal has no backticks and double quotes around. -/
def PlainAround (r : RawClauses) (q : Query) (clause : RowClause) (pre post : List Char) : Prop :=
  clause = .select → (q.primaryAlias || r.keepsAlias) = false →
    ∀ c ∈ pre ++ post, c ≠ '\x60' ∧ c ≠ '"'

/-- The edit of a clause does to a literal what it does to the literal alone. -/
theorem editOf_edits (r : RawClauses) {q : Query} (hq : q.HasPlainKeys) (keyPath : KeyPathStyle)
    (clause : RowClause) {before lit post : List Char} (hlit : IsQuoted lit)
    (hplain : r.PlainAround q clause before post) :
    IsQuoted (overChars (r.editOf q keyPath clause) lit) ∧ ∃ before' post',
      Edits (overChars (r.editOf q keyPath clause)) before lit post
        before' (overChars (r.editOf q keyPath clause) lit) post' := by
  have hother : IsQuoted (overChars (r.edit q keyPath) lit) ∧ ∃ before' post',
      Edits (overChars (r.edit q keyPath)) before lit post
        before' (overChars (r.edit q keyPath) lit) post' := by
    obtain ⟨hquoted, before', post', hedits, -⟩ := (r.edit_parts hq keyPath).edits hlit before post
    exact ⟨hquoted, before', post', hedits⟩
  cases clause with
  | select =>
    have hstyle := hq.styleKeys keyPath
    obtain ⟨hlit₁, before₁, post₁, hedits₁, hpost₁⟩ := hstyle.parts.edits hlit before post
    -- the key paths bring in no quotation marks
    have hfree : ∀ c, isQuote c → c ≠ '\'' → c ∉ before ++ post →
        c ∉ before₁ ∧ c ∉ post₁ := by
      intro c hc hne haround
      rw [List.mem_append, not_or] at haround
      have hfront := hstyle.unquoted c hc (before ++ ['\'']) (by simp [hne, haround])
      have hback := hstyle.unquoted c hc ('\'' :: post) (by simp [hne, haround])
      rw [hedits₁.mark, List.mem_append, not_or] at hfront
      rw [hpost₁, List.mem_cons, not_or] at hback
      exact ⟨hfront.1, hback.2⟩
    obtain ⟨hlit₂, before₂, post₂, hedits₂⟩ := AliasScope.dropFromSelect_edits
      (r.source.unmarked_scopes q.sources) (q.primaryAlias || r.keepsAlias) hlit₁ fun hdrops =>
        ⟨hfree '\x60' (by decide) (by decide) fun hmem => (hplain rfl hdrops _ hmem).1 rfl,
          hfree '"' (by decide) (by decide) fun hmem => (hplain rfl hdrops _ hmem).2 rfl⟩
    unfold editOf
    rw [overChars_comp]
    exact ⟨hlit₂, before₂, post₂, hedits₂.comp hedits₁⟩
  | filter => exact hother
  | having => exact hother

end RawClauses

end StreamQuery
