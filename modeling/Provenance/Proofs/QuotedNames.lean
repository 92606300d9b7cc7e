-- SUMMARY: Names quoted into statements are read back.
import Mathlib.Data.List.Basic
import Mathlib.Logic.Function.Basic
import Provenance.Sql.Fragment

/-!
# Quoted names

A name goes into a statement by two rules. Between its marks each closing one is written twice, and
then a backslash is put before each colon. To read it back the backslashes are taken away first, and
the name goes on until a closing mark after which no other comes (`readName`). Each rule has its
converse: a name is read just where it is written (`readName_eq_some_iff`), and every text in which
no colon is bare is written by the rule of colons (`eq_escapeColons_iff`).
-/
namespace Provenance.Sql

open Dialect

variable {c closing : Char} {cs text name rest before after : List Char}

/-! ## Marks within a name -/

/-- What stands before the closing mark, and the text after it. Two marks stand for one. -/
def readInside (closing : Char) : List Char → Option (List Char × List Char)
  | [] => none
  | [c] => if c = closing then some ([], []) else none
  | c :: next :: cs =>
    if c ≠ closing then (readInside closing (next :: cs)).map (Prod.map (c :: ·) id)
    else if next = closing then (readInside closing cs).map (Prod.map (closing :: ·) id)
    else some ([], next :: cs)

/-- The name in double quotes at the beginning of a text, and the text after it. -/
def readName : List Char → Option (String × List Char)
  | [] => none
  | c :: cs => if c = '"' then (readInside '"' cs).map (Prod.map String.ofList id) else none

theorem map_fst_eq_some_iff {α β γ : Type} {f : α → β} {o : Option (α × γ)} {b : β} {c : γ} :
    o.map (Prod.map f id) = some (b, c) ↔ ∃ a, f a = b ∧ o = some (a, c) := by
  rw [Option.map_eq_some_iff]
  constructor
  · rintro ⟨⟨a, c⟩, ho, heq⟩
    obtain ⟨rfl, rfl⟩ := Prod.mk.inj heq
    exact ⟨a, rfl, ho⟩
  · rintro ⟨a, rfl, ho⟩
    exact ⟨(a, c), ho, rfl⟩

theorem doubled_cons_self : doubled c (c :: cs) = c :: c :: doubled c cs := by
  simp [doubled]

theorem doubled_cons_of_ne (h : c ≠ closing) :
    doubled closing (c :: cs) = c :: doubled closing cs := by
  simp [doubled, h]

theorem readInside_doubled (h : rest.head? ≠ some closing) :
    readInside closing (doubled closing name ++ closing :: rest) = some (name, rest) := by
  induction name with
  | nil =>
    cases rest with
    | nil => simp [doubled, readInside]
    | cons next rest =>
      have hnext : next ≠ closing := by simpa using h
      simp [doubled, readInside, hnext]
  | cons c name ih =>
    by_cases hc : c = closing
    · subst hc
      simp [doubled_cons_self, readInside, ih]
    · rw [doubled_cons_of_ne hc, List.cons_append]
      -- Behind `c` there is at least the closing mark.
      generalize doubled closing name ++ closing :: rest = text at ih ⊢
      cases text with
      | nil => simp [readInside] at ih
      | cons next text => simp [readInside, hc, ih]

theorem eq_doubled_of_readInside (h : readInside closing text = some (name, rest)) :
    text = doubled closing name ++ closing :: rest ∧ rest.head? ≠ some closing := by
  fun_induction readInside closing text generalizing name with
  | case1 => simp at h
  | case2 =>
    simp only [Option.some.injEq, Prod.mk.injEq] at h
    obtain ⟨rfl, rfl⟩ := h
    simp [doubled]
  | case3 => simp at h
  | case4 c next cs hc ih =>
    obtain ⟨name', rfl, hread⟩ := map_fst_eq_some_iff.mp h
    obtain ⟨htext, hrest⟩ := ih hread
    exact ⟨by rw [doubled_cons_of_ne hc, htext, List.cons_append], hrest⟩
  | case5 c cs hc ih =>
    obtain ⟨name', rfl, hread⟩ := map_fst_eq_some_iff.mp h
    obtain ⟨htext, hrest⟩ := ih hread
    exact ⟨by rw [not_not.mp hc, doubled_cons_self, htext]; rfl, hrest⟩
  | case6 c next cs hc hnext =>
    simp only [Option.some.injEq, Prod.mk.injEq] at h
    obtain ⟨rfl, rfl⟩ := h
    exact ⟨by rw [not_not.mp hc]; rfl, by simpa using hnext⟩

/-- What stands between marks is read just where it is written, with a last mark that is not the
first of two. -/
theorem readInside_eq_some_iff :
    readInside closing text = some (name, rest) ↔
      text = doubled closing name ++ closing :: rest ∧ rest.head? ≠ some closing := by
  constructor
  · exact eq_doubled_of_readInside
  · rintro ⟨rfl, h⟩
    exact readInside_doubled h

theorem doubled_injective (closing : Char) : Function.Injective (doubled closing) := by
  intro name name' h
  have hread (name : List Char) :
      readInside closing (doubled closing name ++ [closing]) = some (name, []) :=
    readInside_doubled (by simp)
  have hsame := (hread name).symm.trans (h ▸ hread name')
  exact (Prod.mk.inj (Option.some.inj hsame)).1

theorem toList_quoteName_sqlite (name : String) :
    (sqlite.quoteName name).toList = '"' :: doubled '"' name.toList ++ ['"'] :=
  String.toList_ofList

/-- A name is read just where it is quoted and no other mark follows. -/
theorem readName_eq_some_iff {name : String} :
    readName text = some (name, rest) ↔
      text = (sqlite.quoteName name).toList ++ rest ∧ rest.head? ≠ some '"' := by
  have hquoted : (sqlite.quoteName name).toList ++ rest =
      '"' :: (doubled '"' name.toList ++ '"' :: rest) := by
    simp [toList_quoteName_sqlite]
  rw [hquoted]
  cases text with
  | nil => simp [readName]
  | cons c cs =>
    by_cases hc : c = '"'
    · subst hc
      rw [readName, if_pos rfl, map_fst_eq_some_iff, List.cons_eq_cons, eq_self, true_and,
        ← readInside_eq_some_iff]
      constructor
      · rintro ⟨inside, rfl, hinside⟩
        rwa [String.toList_ofList]
      · exact fun hinside => ⟨name.toList, String.ofList_toList, hinside⟩
    · simp [readName, hc]

/-! ## Colons -/

/-- The text with the backslash before each colon taken away. -/
def unescapeColons : List Char → List Char
  | '\\' :: ':' :: cs => ':' :: unescapeColons cs
  | c :: cs => c :: unescapeColons cs
  | [] => []

/-- Right before each colon of the text stands a backslash, so none begins a parameter. -/
def ColonsMarked (text : List Char) : Prop :=
  ∀ before after, text = before ++ ':' :: after → before.getLast? = some '\\'

theorem escapeColons_cons_colon : escapeColons (':' :: cs) = '\\' :: ':' :: escapeColons cs := by
  simp [escapeColons]

theorem escapeColons_cons_of_ne (h : c ≠ ':') : escapeColons (c :: cs) = c :: escapeColons cs := by
  simp [escapeColons, h]

theorem head?_escapeColons (cs : List Char) : (escapeColons cs).head? ≠ some ':' := by
  cases cs with
  | nil => simp [escapeColons]
  | cons c cs =>
    by_cases hc : c = ':'
    · subst hc
      simp [escapeColons_cons_colon]
    · simp [escapeColons_cons_of_ne hc, hc]

theorem unescapeColons_cons (h : c = '\\' → cs.head? ≠ some ':') :
    unescapeColons (c :: cs) = c :: unescapeColons cs := by
  rw [unescapeColons]
  rintro cs' rfl rfl
  exact h rfl rfl

theorem unescapeColons_escapeColons (cs : List Char) : unescapeColons (escapeColons cs) = cs := by
  induction cs with
  | nil => rfl
  | cons c cs ih =>
    by_cases hc : c = ':'
    · subst hc
      rw [escapeColons_cons_colon, unescapeColons, ih]
    · rw [escapeColons_cons_of_ne hc, unescapeColons_cons fun _ => head?_escapeColons cs, ih]

theorem escapeColons_injective : Function.Injective escapeColons :=
  Function.LeftInverse.injective unescapeColons_escapeColons

/-- A text is read part by part, unless it is parted between a colon and its backslash. -/
theorem unescapeColons_append (h : before.getLast? = some '\\' → after.head? ≠ some ':') :
    unescapeColons (before ++ after) = unescapeColons before ++ unescapeColons after := by
  fun_induction unescapeColons before with
  | case1 cs ih =>
    have hcs : cs.getLast? = some '\\' → after.head? ≠ some ':' := fun hlast =>
      h (List.mem_getLast?_cons (List.mem_getLast?_cons hlast))
    simp only [List.cons_append, unescapeColons, ih hcs]
  | case2 c cs hc ih =>
    have hcs : cs.getLast? = some '\\' → after.head? ≠ some ':' := fun hlast =>
      h (List.mem_getLast?_cons hlast)
    rw [List.cons_append, List.cons_append, unescapeColons_cons, ih hcs]
    -- A backslash that marks nothing in the first part must not mark a colon of the second.
    rintro rfl
    cases cs with
    | nil => exact h rfl
    | cons next cs =>
      intro hnext
      exact hc cs rfl (by simpa using hnext)
  | case3 => rfl

theorem colonsMarked_cons_iff (h : c = '\\' → cs.head? ≠ some ':') :
    ColonsMarked (c :: cs) ↔ c ≠ ':' ∧ ColonsMarked cs := by
  constructor
  · intro hmarked
    constructor
    · rintro rfl
      simpa using hmarked [] cs rfl
    · rintro before after rfl
      have hlast := hmarked (c :: before) after rfl
      cases before with
      -- Only here is the backslash `c` itself, which by assumption marks no colon.
      | nil => exact absurd rfl (h (by simpa using hlast))
      | cons => simpa using hlast
  · rintro ⟨hc, hmarked⟩ before after htext
    cases before with
    | nil => exact absurd (List.cons.inj htext).1 hc
    | cons _ before =>
      have hlast := hmarked before after (List.cons.inj htext).2
      exact List.mem_getLast?_cons hlast

theorem colonsMarked_marked_iff : ColonsMarked ('\\' :: ':' :: cs) ↔ ColonsMarked cs := by
  constructor
  · rintro hmarked before after rfl
    have hlast := hmarked ('\\' :: ':' :: before) after rfl
    cases before with
    | nil => simp at hlast
    | cons => simpa using hlast
  · intro hmarked before after htext
    match before, htext with
    | ['\\'], _ => rfl
    | _ :: _ :: before, htext =>
      have hlast := hmarked before after (List.cons.inj (List.cons.inj htext).2).2
      exact List.mem_getLast?_cons (List.mem_getLast?_cons hlast)

theorem colonsMarked_escapeColons (cs : List Char) : ColonsMarked (escapeColons cs) := by
  induction cs with
  | nil => simp [ColonsMarked, escapeColons]
  | cons c cs ih =>
    by_cases hc : c = ':'
    · subst hc
      rw [escapeColons_cons_colon, colonsMarked_marked_iff]
      exact ih
    · rw [escapeColons_cons_of_ne hc, colonsMarked_cons_iff fun _ => head?_escapeColons cs]
      exact ⟨hc, ih⟩

theorem escapeColons_unescapeColons (h : ColonsMarked text) :
    escapeColons (unescapeColons text) = text := by
  fun_induction unescapeColons text with
  | case1 cs ih => rw [escapeColons_cons_colon, ih (colonsMarked_marked_iff.mp h)]
  | case2 c cs hc ih =>
    have hmark : c = '\\' → cs.head? ≠ some ':' := by
      rintro rfl hhead
      obtain ⟨cs, rfl⟩ := List.head?_eq_some_iff.mp hhead
      exact hc cs rfl rfl
    obtain ⟨hbare, hcs⟩ := (colonsMarked_cons_iff hmark).mp h
    rw [escapeColons_cons_of_ne hbare, ih hcs]
  | case3 => rfl

/-- The rule of colons writes all texts in which no colon is bare, and no others. -/
theorem eq_escapeColons_iff :
    text = escapeColons cs ↔ ColonsMarked text ∧ unescapeColons text = cs := by
  constructor
  · rintro rfl
    exact ⟨colonsMarked_escapeColons cs, unescapeColons_escapeColons cs⟩
  · rintro ⟨h, rfl⟩
    exact (escapeColons_unescapeColons h).symm

/-! ## References to columns -/

theorem toList_quote (d : Dialect) (name : String) :
    (d.quote name).toList = escapeColons (d.quoteName name).toList :=
  String.toList_ofList

theorem quoteName_injective (d : Dialect) : Function.Injective d.quoteName := by
  have hinside {opening closing : Char} {cs cs' : List Char}
      (h : String.ofList (opening :: cs ++ [closing]) =
        String.ofList (opening :: cs' ++ [closing])) : cs = cs' := by
    have hlist := congrArg String.toList h
    simpa using hlist
  intro name name' h
  rw [← String.toList_inj]
  cases d with
  | sqlite | other => exact doubled_injective '"' (hinside h)
  | mssql => exact doubled_injective ']' (hinside h)
  | postgresql => exact doubled_injective '"' (doubled_injective '%' (hinside h))

theorem quote_injective (d : Dialect) : Function.Injective d.quote := by
  intro name name' h
  have hcolons := congrArg String.toList h
  rw [toList_quote, toList_quote] at hcolons
  exact quoteName_injective d (String.toList_inj.mp (escapeColons_injective hcolons))

theorem exists_getLast?_quote (d : Dialect) (name : String) :
    ∃ mark, (d.quote name).toList.getLast? = some mark ∧ mark ≠ ')' := by
  have hlast {opening closing : Char} {cs : List Char} (h : closing ≠ ':') :
      (escapeColons (opening :: cs ++ [closing])).getLast? = some closing := by
    simp [escapeColons, List.flatMap_append, h]
  rw [toList_quote]
  cases d <;> simp only [quoteName, String.toList_ofList]
  case mssql => exact ⟨']', hlast (by decide), by decide⟩
  all_goals exact ⟨'"', hlast (by decide), by decide⟩

theorem textCast_injective (d : Dialect) : Function.Injective d.textCast := by
  intro expression expression' h
  cases d <;> simpa [textCast] using h

theorem getLast?_textCast (d : Dialect) (expression : String) :
    (d.textCast expression).toList.getLast? = some ')' := by
  cases d <;> simp [textCast, List.getLast?_cons]

/-- No text that ends with a quoted name is a cast. -/
theorem textCast_ne_append_quote (d : Dialect) (expression before name : String) :
    d.textCast expression ≠ before ++ d.quote name := by
  intro h
  obtain ⟨mark, hmark, hne⟩ := exists_getLast?_quote d name
  have hlast := getLast?_textCast d expression
  rw [h, String.toList_append, List.getLast?_append, hmark, Option.some_or] at hlast
  exact hne (Option.some.inj hlast)

/-- Columns have different references, reserved or not. -/
theorem columnReference_injective (d : Dialect) (schema : Schema) (table : String) :
    Function.Injective (columnReference d schema table) := by
  have hplain {column column' : String}
      (h : table ++ "." ++ d.quote column = table ++ "." ++ d.quote column') : column = column' :=
    quote_injective d ((String.append_right_inj _).mp h)
  intro column column' h
  unfold columnReference compared at h
  -- Each of the two columns may be reserved. If just one is, only its reference is a cast.
  split at h <;> split at h
  · exact hplain (textCast_injective d h)
  · exact (textCast_ne_append_quote _ _ _ _ h).elim
  · exact (textCast_ne_append_quote _ _ _ _ h.symm).elim
  · exact hplain h

/-! ## Names within statements -/

theorem unescapeColons_quote (name : String) :
    unescapeColons (sqlite.quote name).toList = (sqlite.quoteName name).toList := by
  rw [toList_quote, unescapeColons_escapeColons]

/-- Around a quoted name a statement is read as it is without it. -/
theorem unescapeColons_around (name : String) (before after : List Char) :
    unescapeColons (before ++ (sqlite.quote name).toList ++ after) =
      unescapeColons before ++ (sqlite.quoteName name).toList ++ unescapeColons after := by
  have hmarks : (sqlite.quote name).toList =
      '"' :: (escapeColons (doubled '"' name.toList) ++ ['"']) := by
    simp [toList_quote, toList_quoteName_sqlite, escapeColons]
  have hafter : (before ++ (sqlite.quote name).toList).getLast? ≠ some '\\' := by
    simp [hmarks, List.getLast?_cons]
  have hbefore : (sqlite.quote name).toList.head? ≠ some ':' := by
    simp [hmarks]
  rw [unescapeColons_append fun h => absurd h hafter, unescapeColons_append fun _ => hbefore,
    unescapeColons_quote]

theorem head?_unescapeColons (h : text.head? ≠ some '"') :
    (unescapeColons text).head? ≠ some '"' := by
  fun_cases unescapeColons text with
  | case1 => simp
  | case2 c cs => simpa using h
  | case3 => simp

theorem eq_quote_iff {name : String} :
    text = (sqlite.quote name).toList ↔
      ColonsMarked text ∧ readName (unescapeColons text) = some (name, []) := by
  rw [toList_quote, eq_escapeColons_iff, readName_eq_some_iff, List.append_nil]
  simp

/-- Where less than the whole could be read as a name, a second mark follows. -/
theorem head?_of_readName {name other : String}
    (htext : unescapeColons (sqlite.quote name).toList = before ++ after) (hne : after ≠ [])
    (hread : readName before = some (other, [])) : after.head? = some '"' := by
  -- Otherwise one text would be read both as the whole name and as the shorter one.
  by_contra hafter
  rw [unescapeColons_quote] at htext
  obtain ⟨hbefore, -⟩ := readName_eq_some_iff.mp hread
  rw [List.append_nil] at hbefore
  have hwhole : readName (sqlite.quoteName name).toList = some (name, []) :=
    readName_eq_some_iff.mpr ⟨(List.append_nil _).symm, by simp⟩
  have hpart : readName (sqlite.quoteName name).toList = some (other, after) :=
    readName_eq_some_iff.mpr ⟨by rw [htext, hbefore], hafter⟩
  exact hne (Prod.mk.inj (Option.some.inj (hpart.symm.trans hwhole))).2

/-- The quoted form of a name is the one text in which no colon is bare and which, with the
backslashes before its colons taken away, is read as the name with nothing left over. Only its last
mark ends it: an earlier mark that might has another one after it. In a statement the text around it
is read as it is without the name, and the reading of the name stops where the name does. So different
names, and different columns, are never written alike. -/
theorem quotedNames_readBack :
    (∀ (name : String) (text : List Char),
      text = (sqlite.quote name).toList ↔
        ColonsMarked text ∧ readName (unescapeColons text) = some (name, [])) ∧
    (∀ (name other : String) (before after : List Char),
      unescapeColons (sqlite.quote name).toList = before ++ after → after ≠ [] →
      readName before = some (other, []) → after.head? = some '"') ∧
    (∀ (name : String) (before after : List Char),
      unescapeColons (before ++ (sqlite.quote name).toList ++ after) =
        unescapeColons before ++ (sqlite.quoteName name).toList ++ unescapeColons after ∧
      (after.head? ≠ some '"' →
        readName ((sqlite.quoteName name).toList ++ unescapeColons after) =
          some (name, unescapeColons after))) ∧
    ∀ d : Dialect, Function.Injective d.quote ∧
      ∀ (schema : Schema) (table : String),
        Function.Injective (columnReference d schema table) := by
  refine ⟨?_, ?_, ?_, ?_⟩
  · exact fun name text => eq_quote_iff
  · exact fun name other before after => head?_of_readName
  · intro name before after
    refine ⟨unescapeColons_around name before after, fun hafter => ?_⟩
    exact readName_eq_some_iff.mpr ⟨rfl, head?_unescapeColons hafter⟩
  · exact fun d => ⟨quote_injective d, columnReference_injective d⟩

/-- A name of quotes, colons and backslashes, compared with a parameter. -/
theorem quotedNames_readBack_hostile :
    let quoted := "\"a\\\\:\"\"b\"\"\\:\\:\"".toList
    quoted = (sqlite.quote "a\\:\"b\"::").toList ∧
      readName (unescapeColons quoted) = some ("a\\:\"b\"::", []) ∧
      readName "\"a\\:\"".toList = some ("a\\:", []) ∧
      "\"b\"\"::\"".toList.head? = some '"' ∧
      readName ((sqlite.quoteName "a\\:\"b\"::").toList ++ unescapeColons " = :value".toList) =
        some ("a\\:\"b\"::", unescapeColons " = :value".toList) := by
  have hquoted : "\"a\\\\:\"\"b\"\"\\:\\:\"".toList =
      (sqlite.quote "a\\:\"b\"::").toList := by decide
  have hshorter : readName "\"a\\:\"".toList = some ("a\\:", []) := by decide
  have hbehind : "\"b\"\"::\"".toList.head? = some '"' :=
    quotedNames_readBack.2.1 "a\\:\"b\"::" _ _ _ (by decide) (by decide) hshorter
  have hcompared := (quotedNames_readBack.2.2.1 "a\\:\"b\"::" [] " = :value".toList).2 (by decide)
  exact ⟨hquoted, ((quotedNames_readBack.1 _ _).mp hquoted).2, hshorter, hbehind, hcompared⟩

end Provenance.Sql
