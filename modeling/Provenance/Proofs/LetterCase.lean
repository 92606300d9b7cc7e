-- SUMMARY: The wildcard rule of stored annotations in terms of the rule of elements in memory.
import Provenance.Proofs.Wildcards
import Provenance.Proofs.Conditions
import Mathlib.Data.List.TakeWhile
import Mathlib.Data.String.Basic

/-!
# Wildcard patterns and the case of letters

Stored annotations match a wildcard pattern without regard to the case of ASCII letters, elements in
memory match it exactly. The first rule is the second one after the letters of pattern and text are
lowered. It also ends pattern and text at their first null character, and it cannot be asked for at all
with a pattern that is too long. Other than that, what matches in memory matches in the store.
-/
namespace Provenance

/-- What is no letter is its own lower case and that of nothing else. -/
theorem Char.toLower_eq_iff {c d : Char} (hd : d.isAlpha = false) : c.toLower = d ↔ c = d := by
  obtain ⟨hupper, hlower⟩ := Bool.or_eq_false_iff.mp hd
  unfold Char.toLower
  split
  · next hcapital =>
    -- both a capital letter and its lower case are letters, which the other character is not
    constructor
    · rintro rfl
      rcases Bool.and_eq_false_iff.mp hlower with hnone | hnone
      all_goals
        have hnone := of_decide_eq_false hnone
        simp [UInt32.le_iff_toNat_le] at hcapital hnone
        omega
    · rintro rfl
      exact absurd (decide_eq_true hcapital) (Bool.eq_false_iff.mp hupper)
  · rfl

namespace Like

/-- The text with its ASCII letters in lower case. -/
def lowered (text : String) : String := String.ofList (Text.lower text.toList)

/-- The text up to its first null character. -/
def cut (text : String) : String := String.ofList (untilNull text.toList)

variable {p : Char} {run pattern text : List Char}

theorem untilNull_lower (cs : List Char) : untilNull (Text.lower cs) = Text.lower (untilNull cs) := by
  have hnull : (fun c : Char => decide (c ≠ '\x00')) ∘ Char.toLower = fun c => decide (c ≠ '\x00') := by
    funext c
    exact decide_eq_decide.mpr (not_congr (Char.toLower_eq_iff (by decide)))
  rw [untilNull, Text.lower, List.takeWhile_map, hnull]
  rfl

theorem foldedText_eq (text : String) : foldedText text = (lowered (cut text)).toList := by
  rw [foldedText, untilNull_lower, lowered, cut, String.toList_ofList, String.toList_ofList]

theorem cut_eq_self {text : String} (h : '\x00' ∉ text.toList) : cut text = text := by
  have hall : untilNull text.toList = text.toList :=
    List.takeWhile_eq_self_iff.mpr fun c hc => decide_eq_true fun hnull => h (hnull ▸ hc)
  rw [cut, hall, String.ofList_toList]

/-! ## What lowering keeps -/

/-- The percent sign and the underscore are no letters, so a character in lower case stands for the same
runs in lower case. -/
theorem Stands.lower (h : Stands p run) : Stands p.toLower (Text.lower run) := by
  unfold Stands at h ⊢
  simp only [Char.toLower_eq_iff (show '%'.isAlpha = false by decide),
    Char.toLower_eq_iff (show '_'.isAlpha = false by decide)]
  split
  · trivial
  · next hany =>
    rw [if_neg hany] at h
    split
    · next hone =>
      rw [if_pos hone] at h
      rw [Text.lower, List.length_map, h]
    · next hone =>
      rw [if_neg hone] at h
      rw [h]
      rfl

theorem Splits.lower (h : Splits pattern text) : Splits (Text.lower pattern) (Text.lower text) := by
  induction h with
  | nil => exact .nil
  | cons hrun _ ih =>
    rw [Text.lower, Text.lower, List.map_cons, List.map_append]
    exact .cons hrun.lower ih

/-- No letter of the pattern stands in the text in its other case. -/
def CaseKept (pattern text : List Char) : Prop :=
  ∀ c ∈ pattern, ∀ d ∈ text, c.toLower = d.toLower → c = d

theorem Stands.of_lower (h : Stands p.toLower (Text.lower run)) (hkept : ∀ d ∈ run,
    p.toLower = d.toLower → p = d) : Stands p run := by
  unfold Stands at h ⊢
  simp only [Char.toLower_eq_iff (show '%'.isAlpha = false by decide),
    Char.toLower_eq_iff (show '_'.isAlpha = false by decide)] at h
  split
  · trivial
  · next hany =>
    rw [if_neg hany] at h
    split
    · next hone =>
      rw [if_pos hone, Text.lower, List.length_map] at h
      exact h
    · next hone =>
      rw [if_neg hone] at h
      obtain ⟨d, rfl, hd⟩ := List.map_eq_singleton_iff.mp h
      rw [hkept d (List.mem_singleton.mpr rfl) hd.symm]

/-- Where letters keep their case, lowering them makes no difference. -/
theorem splits_lower_iff (hkept : CaseKept pattern text) :
    Splits (Text.lower pattern) (Text.lower text) ↔ Splits pattern text := by
  refine ⟨fun h => ?_, Splits.lower⟩
  induction pattern generalizing text with
  | nil => exact splits_nil_iff.mpr (List.map_eq_nil_iff.mp (splits_nil_iff.mp h))
  | cons p pattern ih =>
    obtain ⟨_, _, hruns, hstands, hrest⟩ := splits_cons_iff.mp h
    obtain ⟨run, rest, rfl, rfl, rfl⟩ := List.map_eq_append_iff.mp hruns
    refine .cons (hstands.of_lower fun d hd => ?_) (ih (fun c hc d hd => ?_) hrest)
    · exact hkept p List.mem_cons_self d (List.mem_append_left _ hd)
    · exact hkept c (List.mem_cons_of_mem _ hc) d (List.mem_append_right _ hd)

/-- The rule of stored annotations in terms of the rule of elements in memory. -/
theorem folded_iff_exact {pattern text : String} :
    folded pattern text = true ↔ exact (lowered (cut pattern)) (lowered (cut text)) = true := by
  rw [folded_iff, exact_iff, foldedText_eq, foldedText_eq]

theorem exact_lowered {pattern text : String} (h : exact pattern text = true) :
    exact (lowered pattern) (lowered text) = true := by
  rw [exact_iff] at h ⊢
  simpa [lowered] using h.lower

theorem exact_eq_wildcardMatch (pattern text : String) :
    exact pattern text = wildcardMatch pattern.toList text.toList := by
  rw [Bool.eq_iff_iff, exact_iff, wildcardMatch_iff]

/-- Without null characters, what matches exactly matches without regard to case. -/
theorem folded_of_exact {pattern text : String} (hpattern : '\x00' ∉ pattern.toList)
    (htext : '\x00' ∉ text.toList) (h : exact pattern text = true) : folded pattern text = true := by
  rw [folded_iff_exact, cut_eq_self hpattern, cut_eq_self htext]
  exact exact_lowered h

/-- Without null characters, and where letters keep their case, both rules are the same. -/
theorem folded_eq_exact {pattern text : String} (hpattern : '\x00' ∉ pattern.toList)
    (htext : '\x00' ∉ text.toList) (hkept : CaseKept pattern.toList text.toList) :
    folded pattern text = exact pattern text := by
  rw [Bool.eq_iff_iff, folded_iff_exact, cut_eq_self hpattern, cut_eq_self htext, exact_iff, exact_iff]
  simpa [lowered] using splits_lower_iff hkept

/-! ## Long patterns -/

/-- A pattern of so many percent signs. -/
def percents (n : Nat) : String := String.ofList (List.replicate n '%')

theorem utf8ByteSize_percents (n : Nat) : (percents n).utf8ByteSize = n := by
  rw [percents, String.utf8ByteSize_ofList]
  induction n with
  | zero => rfl
  | succ n ih =>
    rw [List.replicate_succ, String.utf8Len_cons, ih]
    rfl

/-- All of them together are like one. -/
theorem exact_percents (n : Nat) (text : String) : exact (percents (n + 1)) text = true := by
  rw [exact_iff, percents, String.toList_ofList]
  induction n with
  | zero => exact splits_percent_iff.mpr ⟨text.toList, [], (List.append_nil _).symm, .nil⟩
  | succ n ih => exact splits_percent_percent.mpr ih

end Like

/-! ## Conditions on rows -/

namespace Predicate

open Like

variable {key pattern column : String} {schema : Schema} {t : Table} {rows : List Row} {r : Row}

theorem isFaulty_like [RegexLibrary] : (⟨key, .like, pattern⟩ : Predicate).isFaulty = false := by
  simp [isFaulty]

/-- The rows whose cells match as texts, reserved columns being cast. -/
theorem filterRows_like [RegexLibrary]
    (key : String) (schema : Schema) (t : Table) (column : String)
    (rows : List Row) (h : pattern.utf8ByteSize ≤ Sql.patternLimit) :
    ∃ found, (⟨key, .like, pattern⟩ : Predicate).filterRows schema t [column] rows = .ok found ∧
      ∀ r, r ∈ found ↔ r ∈ rows ∧
        ∃ text, (r.get column).asText = .text text ∧ folded pattern text = true := by
  have hvalid : (⟨key, .like, pattern⟩ : Predicate).IsValid := ⟨isFaulty_like, fun _ => h⟩
  refine ⟨_, hvalid.filterRows schema t [column] rows, fun r => ?_⟩
  have hcast (v : Value) : v.asText.asText = v.asText := by
    rcases v with _ | (_ | _) | _ <;> rfl
  have hadmits (form : Affinity) (v : Value) : Operator.like.admits none form pattern v = true ↔
      ∃ text, v.asText = .text text ∧ folded pattern text = true := by
    rcases v with _ | (_ | _) | _ <;> simp [Operator.admits, Value.text?, Value.asText]
  rw [List.mem_filter]
  refine and_congr_right fun _ => ?_
  simp only [admitsRow, List.map_cons, List.map_nil, List.any_cons, List.any_nil, Bool.or_false,
    finder?, reduceCtorEq, if_false, hadmits, Schema.comparedCell]
  split
  · rw [hcast]
  · rfl

/-- A pattern that is too long is refused as soon as there is a row. -/
theorem filterRows_like_of_long [RegexLibrary]
    (h : Sql.patternLimit < pattern.utf8ByteSize) (hrows : rows ≠ []) :
    (⟨key, .like, pattern⟩ : Predicate).filterRows schema t [column] rows =
      .error .statementFailed := by
  simp [filterRows, fails, h, hrows]

/-- In memory a text matches a pattern just if it falls into runs for which the characters of the pattern
stand. A stored text matches just if it does so in memory, after letters are lowered and both are cut at
their first null character, provided that the pattern is not too long. -/
theorem like_exact [RegexLibrary] (pattern value : String) :
    (Operator.like.admitsText none pattern value = true ↔
        Splits pattern.toList value.toList) ∧
      ∀ (key : String) (schema : Schema) (t : Table) (column : String) (rows : List Row),
        let answer := (⟨key, .like, pattern⟩ : Predicate).filterRows schema t [column] rows
        (pattern.utf8ByteSize ≤ Sql.patternLimit → ∃ found, answer = .ok found ∧
          ∀ r ∈ rows, (r.get column).asText = .text value →
            (r ∈ found ↔ Operator.like.admitsText none (lowered (cut pattern))
              (lowered (cut value)) = true) ∧
            ('\x00' ∉ pattern.toList → '\x00' ∉ value.toList →
              Operator.like.admitsText none pattern value = true → r ∈ found)) ∧
        (Sql.patternLimit < pattern.utf8ByteSize → rows ≠ [] → answer = .error .statementFailed) := by
  refine ⟨exact_iff, fun key schema t column rows => ⟨fun hlength => ?_, filterRows_like_of_long⟩⟩
  obtain ⟨found, hanswer, hmem⟩ := filterRows_like key schema t column rows hlength
  have hfound (r : Row) (hr : r ∈ rows) (hvalue : (r.get column).asText = .text value) :
      r ∈ found ↔ folded pattern value = true := by
    rw [hmem, and_iff_right hr, hvalue]
    simp
  refine ⟨found, hanswer, fun r hr hvalue => ⟨(hfound r hr hvalue).trans folded_iff_exact, ?_⟩⟩
  exact fun hpattern htext h => (hfound r hr hvalue).mpr (folded_of_exact hpattern htext h)

/-- A row whose letters are those of the pattern, and one that the store finds only because it is
lenient about capital letters. -/
theorem like_exact_lineEnd :
    let r : Row := ⟨[("k", .text "C\nt9")]⟩
    let r' : Row := ⟨[("k", .text "c\nT")]⟩
    Operator.like.admitsText none "C_t%" "C\nt9" = true ∧
      Operator.like.admitsText none "C_t%" "c\nT" = false ∧
      ∃ found, (⟨"k", .like, "C_t%"⟩ : Predicate).filterRows .standard ⟨[⟨"k", .text⟩], [r, r']⟩ ["k"]
          [r, r'] = .ok found ∧ r ∈ found ∧ r' ∈ found := by
  intro r r'
  have hsame : Operator.like.admitsText none "C_t%" "C\nt9" = true :=
    (exact_eq_wildcardMatch _ _).trans (by decide)
  have hlowered : Operator.like.admitsText none (lowered (cut "C_t%")) (lowered (cut "c\nT")) = true :=
    (exact_eq_wildcardMatch _ _).trans (by decide)
  obtain ⟨found, hfound, hrow⟩ := ((like_exact "C_t%" "C\nt9").2 "k" .standard
    ⟨[⟨"k", .text⟩], [r, r']⟩ "k" [r, r']).1 (by decide)
  obtain ⟨_, hfound', hrow'⟩ := ((like_exact "C_t%" "c\nT").2 "k" .standard
    ⟨[⟨"k", .text⟩], [r, r']⟩ "k" [r, r']).1 (by decide)
  obtain rfl := Except.ok.inj (hfound.symm.trans hfound')
  refine ⟨hsame, (exact_eq_wildcardMatch _ _).trans (by decide), found, hfound, ?_, ?_⟩
  · exact (hrow r (by simp) rfl).2 (by decide) (by decide) hsame
  · exact (hrow' r' (by simp) rfl).1.mpr hlowered

/-- The part of a text behind a null character is matched in memory only, and so is what the engine
refuses to match. -/
theorem not_like_exact_null :
    let r : Row := ⟨[("k", .text "a\x00b")]⟩
    let t : Table := ⟨[⟨"k", .text⟩], [r]⟩
    Operator.like.admitsText none (lowered "%b") (lowered "a\x00b") = true ∧
      (⟨"k", .like, "%b"⟩ : Predicate).filterRows .standard t ["k"] [r] = .ok [] ∧
      Operator.like.admitsText none (lowered (percents 50001)) (lowered "a\x00b") = true ∧
      (⟨"k", .like, percents 50001⟩ : Predicate).filterRows .standard t ["k"] [r] =
        .error .statementFailed := by
  intro r t
  refine ⟨(exact_eq_wildcardMatch _ _).trans (by decide), ?_, ?_, ?_⟩
  · have hlength : "%b".utf8ByteSize ≤ Sql.patternLimit := by decide
    obtain ⟨found, hfound, hmem⟩ := filterRows_like "k" .standard t "k" [r] hlength
    rw [hfound]
    refine congrArg _ (List.eq_nil_iff_forall_not_mem.mpr fun r' hr' => ?_)
    obtain ⟨hin, text, htext, hfolded⟩ := (hmem r').mp hr'
    obtain rfl := List.mem_singleton.mp hin
    obtain rfl := Value.text.inj htext
    exact absurd hfolded (by decide)
  · exact exact_lowered (exact_percents 50000 _)
  · refine filterRows_like_of_long ?_ (by simp)
    rw [utf8ByteSize_percents]
    decide

end Predicate
end Provenance
