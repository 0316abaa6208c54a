import Mathlib.Data.List.Forall2
import StreamQuery.Proofs.JoinReading
import StreamQuery.Proofs.Layouts
import StreamQuery.Proofs.Templates

/-!
# Quiet texts

The texts of constants, types and numbers are quiet: they end their literals and compare nothing
with NULL.  The function rules of a catalog are quiet if the names and templates that they write
are; those of the built-in catalog are (`Catalog.isQuiet_builtin`).
-/

namespace StreamQuery

open List Layout

/-! ## Quiet texts -/

section

lemma isQuiet_fill {L : Layout Empty} (hL : L.isHushed {})
    (hleaves : ∀ t ∈ L.leaves, IsQuiet t.toList) : IsQuiet (L.fill Empty.elim) := by
  have hholes : ∀ h ∈ L.holes, IsHushed (Empty.elim h) := fun h _ => h.elim
  refine ⟨isHushed_fill hL hleaves hholes, Bool.eq_false_iff.2 fun hcompares => ?_⟩
  rcases (comparesNull_fill hL hleaves hholes).1 hcompares with ⟨h, -⟩ | ⟨h, -⟩
  · exact h.elim
  · exact h.elim

lemma isQuiet_word {cs : List Char} (h : ∀ c ∈ cs, Lexeme.isWordChar c) : IsQuiet cs := by
  cases cs with
  | nil => decide
  | cons c cs =>
    obtain ⟨hread, hafter⟩ := Lexer.read_word (cons_ne_nil c cs) h
    have hword : ∀ w, Watch.idle.step (.word w) = .idle := fun w => rfl
    refine ⟨⟨?_, ?_⟩, ?_⟩
    · rw [hafter]
      rfl
    · rw [hread, Watch.after_cons, hword]
      exact fun h => by cases h
    · rw [comparesNull, hread]
      rfl

lemma isQuiet_name {cs : List Char} (h : ∀ c ∈ cs, Text.isNamePart c) : IsQuiet cs := by
  have hall : ∀ n < 0x80, Text.isNamePart (Char.ofNat n) →
      Lexeme.isWordChar (Char.ofNat n) := by decide +kernel
  refine isQuiet_word fun c hc => ?_
  exact Text.ascii_induction
    (P := fun c => Text.isNamePart c → Lexeme.isWordChar c) hall
    (Text.isNamePart_ascii (h c hc)) (h c hc)

lemma isQuiet_numeral {cs : List Char} (h : isNumeral cs) : IsQuiet cs := by
  have hunsigned : ∀ cs : List Char, isUnsigned cs → IsQuiet cs := by
    intro cs hcs
    refine isQuiet_word fun c hc => ?_
    rcases isDigit_or_point_of_isUnsigned hcs hc with hc | rfl
    · exact Lexer.isWordChar_of_isDigit hc
    · decide
  unfold isNumeral at h
  split at h
  · next rest =>
    have hrest : IsQuiet (String.ofList rest).toList := by
      rw [String.toList_ofList]
      exact hunsigned rest h
    have hfill := isQuiet_fill (L := words "-" ++ [Span.leaf (String.ofList rest)]) rfl
      (by simpa using hrest)
    simpa using hfill
  · exact hunsigned _ h

/-- A layout of texts with a text between them is filled with texts. -/
lemma Layout.fill_joined {H : Type} {text : H → List Char} {Ls : List (Layout H)} {ts : List String}
    (h : List.Forall₂ (fun L t => L.fill text = t.toList) Ls ts) (sep : String) :
    (joined sep Ls).fill text = (Text.joined sep ts).toList := by
  cases h with
  | nil => rfl
  | @cons L t Ls ts hfirst hrest =>
    rw [joined, fill_append, hfirst, JoinSql.toList_joined]
    congr 1
    induction hrest with
    | nil => rfl
    | cons hfirst _ ih => simp [ih, hfirst]

lemma Layout.separates_comma (H : Type) : Separates H ", " := fun _ _ h => ⟨h.1, h.2⟩

lemma Layout.hushed_bracket (H : Type) : Hushed .afterText (words ")" : Layout H) [] := ⟨rfl, rfl⟩

lemma isQuiet_joined {ts : List String} (h : ∀ t ∈ ts, IsQuiet t.toList) :
    IsQuiet (Text.joined ", " ts).toList := by
  have hushed : Hushed {} (joined ", " (ts.map fun t => ([.leaf t] : Layout Empty))) _ :=
    Hushed.joined (separates_comma Empty) fun L hL => by
      obtain ⟨t, -, rfl⟩ := mem_map.1 hL
      rfl
  have hfill : (joined ", " (ts.map fun t => ([.leaf t] : Layout Empty))).fill Empty.elim =
      (Text.joined ", " ts).toList := by
    refine Layout.fill_joined ?_ ", "
    rw [forall₂_map_left_iff, forall₂_same]
    exact fun t _ => append_nil _
  rw [← hfill]
  refine isQuiet_fill hushed.isHushed fun t ht => ?_
  rw [leaves_joined, flatMap_map, mem_flatMap] at ht
  obtain ⟨t', ht', ht⟩ := ht
  rw [mem_singleton.1 ht]
  exact h t' ht'

lemma isQuiet_double (value : Double) : IsQuiet value.text.toList := by
  cases hspecial : value.isSpecial with
  | false => exact isQuiet_numeral (isNumeral_double hspecial)
  | true =>
    unfold Double.text
    dsimp only
    rw [hspecial, if_pos rfl]
    split
    · decide
    · cases value.isNegative <;> decide

lemma isQuiet_decimalType (size : DecimalSize) : IsQuiet size.sqlType.toList := by
  have hnumber : ∀ n : Nat, IsQuiet (toString n).toList := fun n =>
    isQuiet_numeral (isNumeral_int n)
  have hfill := isQuiet_fill (L := words "DECIMAL(" ++
      [Span.leaf (toString size.precision)] ++ words ", " ++ [Span.leaf (toString size.scale)] ++
      words ")")
    rfl fun t ht => by
      have ht : t = toString size.precision ∨ t = toString size.scale := by simpa using ht
      rcases ht with rfl | rfl <;> exact hnumber _
  have htext : size.sqlType.toList = "DECIMAL(".toList ++ (toString size.precision).toList ++
      ", ".toList ++ (toString size.scale).toList ++ ")".toList := by
    delta DecimalSize.sqlType
    simp only [String.toList_append]
  rw [htext]
  simpa using hfill

lemma isQuiet_sqlType {type : DataType} {settings : DecimalSettings} {t : String}
    (h : type.sqlType settings = .ok t) : IsQuiet t.toList := by
  unfold DataType.sqlType at h
  cases htype : type.underlying with
  | decimal =>
    rw [htype] at h
    cases h
    exact isQuiet_decimalType _
  | _ =>
    rw [htype] at h
    cases h
    all_goals decide

lemma isQuiet_suggestedType (method : String) (settings : DecimalSettings) :
    IsQuiet (Function.suggestedType method settings).toList :=
  Function.suggestedType_induction (P := fun name => IsQuiet name.toList) method settings
    (isQuiet_decimalType _) (by decide)

mutual

lemma isQuiet_constant (value : Constant) : IsQuiet value.sql.toList := by
  match value with
  | .null => decide
  | .bool true => decide
  | .bool false => decide
  | .int n => exact isQuiet_numeral (isNumeral_int n)
  | .double d => exact isQuiet_double d
  | .string s =>
    obtain ⟨hread, hafter⟩ := Lexer.read_quoted s
    refine ⟨⟨?_, ?_⟩, ?_⟩
    · rw [Constant.sql, hafter]
      rfl
    · rw [Constant.sql, hread, Watch.after_cons]
      exact fun h => by cases h
    · rw [comparesNull, Constant.sql, hread]
      rfl
  | .list items => exact isQuiet_joined (isQuiet_constants items)

lemma isQuiet_constants (items : List Constant) :
    ∀ t ∈ Constant.sqlItems items, IsQuiet t.toList := by
  match items with
  | [] => exact fun t ht => absurd ht not_mem_nil
  | item :: rest =>
    exact forall_mem_cons.2 ⟨isQuiet_constant item, isQuiet_constants rest⟩

end

end

/-! ## Quiet catalogs -/

/-- A piece of a template as a piece of a layout. -/
def Piece.span : Piece → Span (Fin 10)
  | .char c => .char c
  | .hole i => .hole i

/-- The layout of a template. -/
def Template.layout (t : Template) : Layout (Fin 10) :=
  t.map Piece.span

/-- True when what a rule writes compares nothing with NULL: a form of its own, a hushed template,
or a call of a function with a plain name. -/
def FunctionRule.isQuiet (rule : FunctionRule) : Bool :=
  rule.special || match rule.template with
  | some text =>
    let L := (Template.ofChars text.toList).layout
    L.isHushed {} && (L.compared {}).isEmpty
  | none => rule.function.toList.all Text.isNamePart

/-- A catalog whose rules write sound forms and compare nothing with NULL. -/
structure Catalog.IsQuiet (c : Catalog) : Prop where
  writesForms : c.WritesForms
  /-- The rules compare nothing with NULL. -/
  rules : ∀ method rule, c.get? method = some rule → rule.isQuiet = true

/-- The built-in rules compare nothing with NULL. -/
theorem Catalog.isQuiet_builtin : builtin.IsQuiet where
  writesForms := writesForms_builtin
  rules method rule := by
    have hall : ∀ entry ∈ FunctionRule.builtinRules, entry.2.isQuiet :=
      all_eq_true.1 (by decide +kernel)
    exact forall_builtin (P := fun _ rule => rule.isQuiet) hall

end StreamQuery
