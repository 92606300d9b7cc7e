-- SUMMARY: The texts that match a wildcard pattern, by two procedures.
import Provenance.Pattern.Like
import Mathlib.Data.List.Infix
import Mathlib.Logic.Relation

/-!
# Texts that match wildcard patterns

A text matches a wildcard pattern when it falls into runs, one for each character of the pattern,
for which these characters stand. This is decided in two ways: by following what may be left of the
text, and by turning the pattern into a regular expression. Both decide the same.
-/
namespace Provenance

open Relation

namespace Like

/-- The percent sign stands for any run, the underscore for a single character, and every other
character for itself. -/
def Stands (p : Char) (run : List Char) : Prop :=
  if p = '%' then True else if p = '_' then run.length = 1 else run = [p]

/-- The text falls into runs for which the characters of the pattern stand. -/
inductive Splits : List Char → List Char → Prop where
  | nil : Splits [] []
  | cons {p : Char} {pattern run rest : List Char} (h : Stands p run)
      (hrest : Splits pattern rest) : Splits (p :: pattern) (run ++ rest)

variable {p : Char} {pattern text rest : List Char}

theorem splits_nil_iff : Splits [] text ↔ text = [] := by
  constructor
  · intro h
    cases h
    rfl
  · rintro rfl
    exact .nil

theorem splits_cons_iff :
    Splits (p :: pattern) text ↔
      ∃ run rest, text = run ++ rest ∧ Stands p run ∧ Splits pattern rest := by
  constructor
  · intro h
    cases h with
    | cons hrun hrest => exact ⟨_, _, rfl, hrun, hrest⟩
  · rintro ⟨run, rest, rfl, hrun, hrest⟩
    exact .cons hrun hrest

/-! ## Runs of percent signs -/

theorem stands_percent (run : List Char) : Stands '%' run := by simp [Stands]

theorem splits_percent_iff :
    Splits ('%' :: pattern) text ↔ ∃ run rest, text = run ++ rest ∧ Splits pattern rest := by
  simp [splits_cons_iff, stands_percent]

theorem splits_percent_percent :
    Splits ('%' :: '%' :: pattern) text ↔ Splits ('%' :: pattern) text := by
  rw [splits_percent_iff]
  constructor
  · rintro ⟨run, rest, rfl, h⟩
    obtain ⟨run', rest', rfl, h'⟩ := splits_percent_iff.mp h
    exact splits_percent_iff.mpr ⟨run ++ run', rest', by rw [List.append_assoc], h'⟩
  · intro h
    exact ⟨[], text, rfl, h⟩

/-- A run of percent signs stands for the same runs as one of them. -/
theorem splits_thinned (pattern : List Char) :
    ∀ text, Splits (thinned pattern) text ↔ Splits pattern text := by
  induction pattern with
  | nil => exact fun _ => Iff.rfl
  | cons p pattern ih =>
    intro text
    change Splits (if p = '%' && (thinned pattern).head? = some '%' then thinned pattern
      else p :: thinned pattern) text ↔ _
    have hcons : Splits (p :: thinned pattern) text ↔ Splits (p :: pattern) text := by
      simp only [splits_cons_iff, ih]
    split
    · next hmerge =>
      simp only [Bool.and_eq_true, decide_eq_true_eq] at hmerge
      obtain ⟨rfl, hhead⟩ := hmerge
      obtain ⟨tail, htail⟩ := List.head?_eq_some_iff.mp hhead
      rw [← hcons, htail, splits_percent_percent]
    · exact hcons

/-! ## What may be left of a text -/

/-- Every text of the list is a tail of those before it. -/
def Nested (remainders : List (List Char)) : Prop := remainders.Pairwise fun s t => t <:+ s

variable {remainders : List (List Char)}

theorem suffixes_eq_tails (text : List Char) : suffixes text = text.tails := by
  induction text with
  | nil => rfl
  | cons c text ih =>
    change (c :: (suffixes text).headD []) :: suffixes text = _
    rw [ih]
    cases text <;> simp

theorem nested_tails (text : List Char) : Nested text.tails := by
  induction text with
  | nil => simp [Nested]
  | cons c text ih =>
    rw [List.tails_cons, Nested, List.pairwise_cons]
    exact ⟨fun t ht => ((List.mem_tails _ _).mp ht).trans (List.suffix_cons c text), ih⟩

/-- What is left after a character other than the percent sign. -/
def after? (p : Char) : List Char → Option (List Char)
  | [] => none
  | c :: rest => if p = '_' || p = c then some rest else none

theorem advance_of_ne (hp : p ≠ '%') (remainders : List (List Char)) :
    advance remainders p = remainders.filterMap (after? p) := by
  unfold advance
  rw [if_neg hp]
  rfl

theorem advance_percent (longest : List Char) (rest : List (List Char)) :
    advance (longest :: rest) '%' = longest.tails := suffixes_eq_tails longest

theorem exists_cons_of_after? (h : after? p text = some rest) :
    ∃ c, text = c :: rest ∧ (p = '_' ∨ p = c) := by
  cases text with
  | nil => cases h
  | cons c tail =>
    simp only [after?, Bool.or_eq_true, decide_eq_true_eq] at h
    split at h
    · next hc =>
      obtain rfl := Option.some.inj h
      exact ⟨c, rfl, hc⟩
    · cases h

theorem after?_eq_some (hp : p ≠ '%') :
    after? p text = some rest ↔ ∃ run, text = run ++ rest ∧ Stands p run := by
  constructor
  · intro h
    obtain ⟨c, rfl, hc⟩ := exists_cons_of_after? h
    refine ⟨[c], rfl, ?_⟩
    rcases hc with rfl | rfl
    · simp [Stands]
    · simp [Stands]
  · rintro ⟨run, rfl, h⟩
    rw [Stands, if_neg hp] at h
    split at h
    · next hone =>
      obtain ⟨c, rfl⟩ := List.length_eq_one_iff.mp h
      simp [after?, hone]
    · subst h
      simp [after?]

theorem Nested.advance (h : Nested remainders) (p : Char) :
    Nested (Like.advance remainders p) := by
  by_cases hp : p = '%'
  · subst hp
    cases remainders with
    | nil => exact .nil
    | cons longest rest =>
      rw [advance_percent]
      exact nested_tails longest
  · rw [advance_of_ne hp]
    refine List.Pairwise.filterMap _ (fun s t hts s' hs' t' ht' => ?_) h
    obtain ⟨c, rfl, _⟩ := exists_cons_of_after? hs'
    obtain ⟨d, rfl, _⟩ := exists_cons_of_after? ht'
    rcases List.suffix_cons_iff.mp hts with heq | hsuffix
    · obtain ⟨rfl, rfl⟩ := List.cons.inj heq
      exact List.suffix_refl _
    · exact (List.suffix_cons d t').trans hsuffix

theorem mem_advance (h : Nested remainders) :
    rest ∈ advance remainders p ↔ ∃ t ∈ remainders, ∃ run, t = run ++ rest ∧ Stands p run := by
  by_cases hp : p = '%'
  · subst hp
    simp only [stands_percent, and_true]
    cases remainders with
    | nil => simp [advance]
    | cons longest others =>
      rw [advance_percent, List.mem_tails]
      constructor
      · rintro ⟨run, rfl⟩
        exact ⟨_, by simp, run, rfl⟩
      · rintro ⟨t, ht, run, rfl⟩
        have htail : run ++ rest <:+ longest := by
          rcases List.mem_cons.mp ht with heq | ht
          · exact heq ▸ List.suffix_refl _
          · exact (List.pairwise_cons.mp h).1 _ ht
        exact (List.suffix_append run rest).trans htail
  · simp only [advance_of_ne hp, List.mem_filterMap, after?_eq_some hp]

/-- What is left after the pattern is what lies behind a text that matches. -/
theorem mem_foldl_advance (h : Nested remainders) :
    rest ∈ pattern.foldl advance remainders ↔
      ∃ t ∈ remainders, ∃ run, t = run ++ rest ∧ Splits pattern run := by
  induction pattern generalizing remainders with
  | nil => simp [splits_nil_iff]
  | cons p pattern ih =>
    rw [List.foldl_cons, ih (h.advance p)]
    simp only [mem_advance h]
    constructor
    · rintro ⟨_, ⟨t, ht, run, rfl, hrun⟩, run', rfl, hpattern⟩
      exact ⟨_, ht, run ++ run', by rw [List.append_assoc], .cons hrun hpattern⟩
    · rintro ⟨t, ht, _, rfl, hsplits⟩
      obtain ⟨run, run', rfl, hrun, hpattern⟩ := splits_cons_iff.mp hsplits
      exact ⟨_, ⟨_, ht, run, List.append_assoc _ _ _, hrun⟩, run', rfl, hpattern⟩

theorem wildcardMatch_iff : wildcardMatch pattern text = true ↔ Splits pattern text := by
  have hnested : Nested [text] := List.pairwise_singleton _ _
  simp only [wildcardMatch, List.any_eq_true, List.isEmpty_iff, exists_eq_right,
    mem_foldl_advance hnested, List.mem_singleton, exists_eq_left, splits_thinned,
    List.append_nil, exists_eq_left']

end Like

/-! ## Places of a text -/

namespace Regex

variable {text : List Char} {p q : Place} {ps qs reversed : List Place}

/-- The place lies in the text. -/
structure Place.IsIn (text : List Char) (p : Place) : Prop where
  le : p.index ≤ text.length
  after : p.after = text.drop p.index
  previous : p.previous = (text.take p.index).getLast?

namespace Place

theorem isIn_first (text : List Char) : (first text).IsIn text := ⟨Nat.zero_le _, rfl, rfl⟩

theorem IsIn.length_after (h : p.IsIn text) : p.after.length = text.length - p.index := by
  rw [h.after, List.length_drop]

theorem IsIn.eq_of_index (hp : p.IsIn text) (hq : q.IsIn text) (h : p.index = q.index) : p = q := by
  obtain ⟨i, previous, after⟩ := p
  obtain ⟨j, previous', after'⟩ := q
  obtain rfl : i = j := h
  obtain rfl : after = after' := hp.after.trans hq.after.symm
  obtain rfl : previous = previous' := hp.previous.trans hq.previous.symm
  rfl

/-- Places behind which the same is left are one. -/
theorem IsIn.eq_of_after (hp : p.IsIn text) (hq : q.IsIn text) (h : p.after = q.after) : p = q := by
  refine hp.eq_of_index hq ?_
  have hlength := congrArg List.length h
  rw [hp.length_after, hq.length_after] at hlength
  have := hp.le
  have := hq.le
  omega

theorem exists_of_next? {test : CharTest} (h : p.next? test = some q) :
    ∃ c, test.admits c = true ∧ p.after = c :: q.after ∧ q.index = p.index + 1 ∧
      q.previous = some c := by
  obtain ⟨i, previous, after⟩ := p
  cases after with
  | nil => cases h
  | cons c after =>
    simp only [next?] at h
    split at h
    · next hc =>
      obtain rfl := Option.some.inj h
      exact ⟨c, hc, rfl, rfl, rfl⟩
    · cases h

theorem IsIn.next? {test : CharTest} (hp : p.IsIn text) (h : p.next? test = some q) :
    q.IsIn text := by
  obtain ⟨c, _, hafter, hindex, hprevious⟩ := exists_of_next? h
  have hdrop : text.drop p.index = c :: q.after := hp.after.symm.trans hafter
  have hlt : p.index < text.length := by
    by_contra hle
    rw [List.drop_eq_nil_of_le (not_lt.mp hle)] at hdrop
    cases hdrop
  obtain ⟨hc, htail⟩ := List.cons.inj ((List.drop_eq_getElem_cons hlt).symm.trans hdrop)
  refine ⟨hindex ▸ hlt, hindex ▸ htail.symm, ?_⟩
  rw [hindex, hprevious, List.take_succ_eq_append_getElem hlt, List.getLast?_concat, hc]

end Place

/-- Each place once, the last first. -/
def Descends (ps : List Place) : Prop := ps.Pairwise fun p q => q.index < p.index

/-- A set of places of the text. -/
structure IsSet (text : List Char) (ps : List Place) : Prop where
  isIn : ∀ p ∈ ps, p.IsIn text
  descends : Descends ps

/-! ### Unions and differences -/

theorem mem_unionOnto (hps : ∀ p ∈ ps, p.IsIn text) (hqs : ∀ q ∈ qs, q.IsIn text) :
    p ∈ unionOnto reversed ps qs ↔ p ∈ reversed ∨ p ∈ ps ∨ p ∈ qs := by
  fun_induction unionOnto reversed ps qs with
  | case1 reversed qs => simp [List.reverseAux_eq]
  | case2 reversed p' ps => simp [List.reverseAux_eq]
  | case3 reversed p' ps q' qs hindex ih =>
    obtain rfl : p' = q' := (hps p' (by simp)).eq_of_index (hqs q' (by simp)) hindex
    rw [ih (fun p hp => hps p (by simp [hp])) fun q hq => hqs q (by simp [hq])]
    simp only [List.mem_cons]
    tauto
  | case4 reversed p' ps q' qs _ _ ih =>
    rw [ih (fun p hp => hps p (by simp [hp])) hqs]
    simp only [List.mem_cons]
    tauto
  | case5 reversed p' ps q' qs _ _ ih =>
    rw [ih hps fun q hq => hqs q (by simp [hq])]
    simp only [List.mem_cons]
    tauto

/-- A place between those before and after it. -/
theorem Descends.insert {front : List Place} (hp : Descends (front ++ p :: ps))
    (hq : Descends (front ++ q :: qs)) (h : q.index < p.index) :
    Descends (front ++ p :: q :: qs) := by
  obtain ⟨_, hqs, hfront⟩ := List.pairwise_append.mp hq
  refine List.pairwise_append.mpr ⟨(List.pairwise_append.mp hp).1, ?_, fun a ha b hb => ?_⟩
  · refine List.pairwise_cons.mpr ⟨fun b hb => ?_, hqs⟩
    rcases List.mem_cons.mp hb with rfl | hb
    · exact h
    · exact ((List.pairwise_cons.mp hqs).1 b hb).trans h
  · rcases List.mem_cons.mp hb with rfl | hb
    · exact (List.pairwise_append.mp hp).2.2 a ha b (by simp)
    · exact hfront a ha b hb

theorem descends_unionOnto (hps : ∀ p ∈ ps, p.IsIn text) (hqs : ∀ q ∈ qs, q.IsIn text)
    (hp : Descends (reversed.reverse ++ ps)) (hq : Descends (reversed.reverse ++ qs)) :
    Descends (unionOnto reversed ps qs) := by
  fun_induction unionOnto reversed ps qs with
  | case1 reversed qs => simpa [List.reverseAux_eq] using hq
  | case2 reversed p' ps => simpa [List.reverseAux_eq] using hp
  | case3 reversed p' ps q' qs hindex ih =>
    obtain rfl : p' = q' := (hps p' (by simp)).eq_of_index (hqs q' (by simp)) hindex
    exact ih (fun p hp => hps p (by simp [hp])) (fun q hq => hqs q (by simp [hq]))
      (by simpa using hp) (by simpa using hq)
  | case4 reversed p' ps q' qs _ hlt ih =>
    exact ih (fun p hp => hps p (by simp [hp])) hqs (by simpa using hp)
      (by simpa using hp.insert hq hlt)
  | case5 reversed p' ps q' qs hne hle ih =>
    have hlt : p'.index < q'.index := by omega
    exact ih hps (fun q hq => hqs q (by simp [hq])) (by simpa using hq.insert hp hlt)
      (by simpa using hq)

theorem mem_union (hps : IsSet text ps) (hqs : IsSet text qs) :
    p ∈ union ps qs ↔ p ∈ ps ∨ p ∈ qs := by
  simp [union, mem_unionOnto hps.isIn hqs.isIn]

theorem IsSet.union (hps : IsSet text ps) (hqs : IsSet text qs) :
    IsSet text (Regex.union ps qs) where
  isIn p hp := ((mem_union hps hqs).mp hp).elim (hps.isIn p) (hqs.isIn p)
  descends := descends_unionOnto hps.isIn hqs.isIn hps.descends hqs.descends

theorem differenceOnto_sublist (reversed ps qs : List Place) :
    (differenceOnto reversed ps qs).Sublist (reversed.reverse ++ ps) := by
  fun_induction differenceOnto reversed ps qs with
  | case1 => simp
  | case2 => simp [List.reverseAux_eq]
  | case3 reversed p' ps q' qs _ ih =>
    exact ih.trans (List.Sublist.append_left (List.sublist_cons_self p' ps) _)
  | case4 reversed p' ps q' qs _ _ ih => simpa using ih
  | case5 reversed p' ps q' qs _ _ ih => exact ih

/-- What is left out of the difference is in the second set. -/
theorem mem_differenceOnto_or (hps : ∀ p ∈ ps, p.IsIn text) (hqs : ∀ q ∈ qs, q.IsIn text)
    (hp : p ∈ reversed ∨ p ∈ ps) : p ∈ differenceOnto reversed ps qs ∨ p ∈ qs := by
  fun_induction differenceOnto reversed ps qs with
  | case1 reversed qs => exact .inl (by simpa using hp)
  | case2 reversed p' ps => exact .inl (by simpa [List.reverseAux_eq] using hp)
  | case3 reversed p' ps q' qs hindex ih =>
    obtain rfl : p' = q' := (hps p' (by simp)).eq_of_index (hqs q' (by simp)) hindex
    by_cases hsame : p = p'
    · exact .inr (by simp [hsame])
    · exact (ih (fun p hp => hps p (by simp [hp])) (fun q hq => hqs q (by simp [hq]))
        (by simpa [hsame] using hp)).imp_right (List.mem_cons_of_mem p')
  | case4 reversed p' ps q' qs _ _ ih =>
    refine ih (fun p hp => hps p (by simp [hp])) hqs ?_
    simp only [List.mem_cons] at hp ⊢
    tauto
  | case5 reversed p' ps q' qs _ _ ih =>
    exact (ih hps (fun q hq => hqs q (by simp [hq])) hp).imp_right (List.mem_cons_of_mem q')

theorem IsSet.difference (hps : IsSet text ps) (qs : List Place) :
    IsSet text (Regex.difference ps qs) ∧ ∀ p ∈ Regex.difference ps qs, p ∈ ps := by
  have hsublist : (Regex.difference ps qs).Sublist ps := by
    simpa [Regex.difference] using differenceOnto_sublist [] ps qs
  exact ⟨⟨fun p hp => hps.isIn p (hsublist.subset hp), hps.descends.sublist hsublist⟩,
    fun p hp => hsublist.subset hp⟩

theorem mem_difference_or (hps : IsSet text ps) (hqs : IsSet text qs) (hp : p ∈ ps) :
    p ∈ difference ps qs ∨ p ∈ qs :=
  mem_differenceOnto_or hps.isIn hqs.isIn (.inr hp)

/-! ### Repetition -/

/-- Passing one character takes sets to sets. -/
theorem IsSet.one (hps : IsSet text ps) (test : CharTest) :
    IsSet text ((Regex.one test).ends ps) := by
  refine ⟨fun q hq => ?_, ?_⟩
  · obtain ⟨p, hp, hnext⟩ := List.mem_filterMap.mp hq
    exact (hps.isIn p hp).next? hnext
  · refine List.Pairwise.filterMap _ (fun p p' hlt q hq q' hq' => ?_) hps.descends
    obtain ⟨_, _, _, hindex, _⟩ := Place.exists_of_next? hq
    obtain ⟨_, _, _, hindex', _⟩ := Place.exists_of_next? hq'
    omega

section Steps

variable {step : List Place → List Place} {Next : Place → Place → Prop} {frontier seen : List Place}
  {fuel : Nat}

/-- Where no step leads out of the places, nothing else is reached from them. -/
theorem mem_iff_of_closed (h : ∀ p ∈ seen, ∀ q, Next p q → q ∈ seen) :
    q ∈ seen ↔ ∃ p ∈ seen, ReflTransGen Next p q := by
  constructor
  · exact fun hq => ⟨q, hq, .refl⟩
  · rintro ⟨p, hp, hreach⟩
    induction hreach with
    | refl => exact hp
    | tail _ hlast ih => exact h _ ih _ hlast

/-- What the steps reach is what can be reached one step after the other, if no step is back and the
fuel is enough for the places that are farthest from the end. -/
theorem mem_stepsUpTo (hset : ∀ ps, IsSet text ps → IsSet text (step ps))
    (hstep : ∀ ps q, q ∈ step ps ↔ ∃ p ∈ ps, Next p q)
    (hnext : ∀ p q, Next p q → q.after.length < p.after.length)
    (hfrontier : IsSet text frontier) (hseen : IsSet text seen) (hsub : ∀ p ∈ frontier, p ∈ seen)
    (hclosed : ∀ p ∈ seen, p ∈ frontier ∨ ∀ q, Next p q → q ∈ seen)
    (hfuel : ∀ p ∈ frontier, p.after.length < fuel) :
    IsSet text (stepsUpTo step fuel frontier seen) ∧
      ∀ q, q ∈ stepsUpTo step fuel frontier seen ↔ ∃ p ∈ seen, ReflTransGen Next p q := by
  induction fuel generalizing frontier seen with
  | zero =>
    have hall (p : Place) (hp : p ∈ seen) : ∀ q, Next p q → q ∈ seen :=
      (hclosed p hp).resolve_left fun hin => Nat.not_lt_zero _ (hfuel p hin)
    exact ⟨hseen, fun q => mem_iff_of_closed hall⟩
  | succ fuel ih =>
    obtain ⟨hnew, hreached⟩ := (hset frontier hfrontier).difference seen
    have hall (p : Place) (hp : p ∈ seen) (q : Place) (hq : Next p q) :
        q ∈ difference (step frontier) seen ∨ q ∈ seen := by
      rcases hclosed p hp with hin | hin
      · exact mem_difference_or (hset frontier hfrontier) hseen ((hstep _ q).mpr ⟨p, hin, hq⟩)
      · exact .inr (hin q hq)
    rw [stepsUpTo]
    generalize difference (step frontier) seen = new at hnew hreached hall
    by_cases hempty : new = []
    · subst hempty
      refine ⟨hseen, fun q => mem_iff_of_closed fun p hp q hq => ?_⟩
      exact (hall p hp q hq).resolve_left (by simp)
    · rw [if_neg (by simpa using hempty)]
      have hmem (p : Place) : p ∈ union new seen ↔ p ∈ new ∨ p ∈ seen := mem_union hnew hseen
      have hclosed' (p : Place) (hp : p ∈ union new seen) :
          p ∈ new ∨ ∀ q, Next p q → q ∈ union new seen := by
        rcases (hmem p).mp hp with hp | hp
        · exact .inl hp
        · exact .inr fun q hq => (hmem q).mpr (hall p hp q hq)
      have hfuel' (q : Place) (hq : q ∈ new) : q.after.length < fuel := by
        obtain ⟨p, hp, hlast⟩ := (hstep _ q).mp (hreached q hq)
        exact Nat.lt_of_lt_of_le (hnext p q hlast) (Nat.le_of_lt_succ (hfuel p hp))
      obtain ⟨hresult, hiff⟩ := ih hnew (hnew.union hseen) (fun p hp => (hmem p).mpr (.inl hp))
        hclosed' hfuel'
      refine ⟨hresult, fun q => (hiff q).trans ⟨?_, ?_⟩⟩
      · rintro ⟨p, hp, hreach⟩
        rcases (hmem p).mp hp with hp | hp
        · obtain ⟨p', hp', hfirst⟩ := (hstep _ p).mp (hreached p hp)
          exact ⟨p', hsub p' hp', .head hfirst hreach⟩
        · exact ⟨p, hp, hreach⟩
      · rintro ⟨p, hp, hreach⟩
        exact ⟨p, (hmem p).mpr (.inr hp), hreach⟩

end Steps

theorem mem_ends_one {test : CharTest} :
    q ∈ (Regex.one test).ends ps ↔ ∃ p ∈ ps, p.next? test = some q :=
  List.mem_filterMap

/-- Of a set the last place is the farthest from the end of the text. -/
theorem IsSet.length_after_lt (hps : IsSet text ps) (hp : p ∈ ps) :
    p.after.length < (ps.getLast?.map (·.after.length + 1)).getD 0 := by
  obtain ⟨front, last, rfl⟩ := (List.eq_nil_or_concat' ps).resolve_left (List.ne_nil_of_mem hp)
  have hle : last.index ≤ p.index := by
    rcases List.mem_append.mp hp with hp | hp
    · exact ((List.pairwise_append.mp hps.descends).2.2 p hp last (by simp)).le
    · rw [List.mem_singleton.mp hp]
  rw [List.getLast?_concat, (hps.isIn p hp).length_after]
  simp only [Option.map_some, Option.getD_some, (hps.isIn last (by simp)).length_after]
  omega

theorem next?_eq_some_iff {test : CharTest} (hp : p.IsIn text) :
    p.next? test = some q ↔ q.IsIn text ∧ ∃ c, test.admits c = true ∧ p.after = c :: q.after := by
  constructor
  · intro h
    obtain ⟨c, hc, hafter, _⟩ := Place.exists_of_next? h
    exact ⟨hp.next? h, c, hc, hafter⟩
  · rintro ⟨hq, c, hc, hafter⟩
    have hnext : p.next? test = some ⟨p.index + 1, some c, q.after⟩ := by
      simp [Place.next?, hafter, hc]
    rw [hnext, (hp.next? hnext).eq_of_after hq rfl]

/-- There is a place behind every beginning of what is left. -/
theorem Place.IsIn.exists_behind (hp : p.IsIn text) {run after : List Char}
    (h : p.after = run ++ after) : ∃ q : Place, q.IsIn text ∧ q.after = after := by
  induction run generalizing p with
  | nil => exact ⟨p, hp, h⟩
  | cons c run ih =>
    have hnext : p.next? .any = some ⟨p.index + 1, some c, run ++ after⟩ := by
      simp [Place.next?, h, CharTest.admits]
    exact ih (hp.next? hnext) rfl

/-- Passing characters leads to the places behind and to no others. -/
theorem reflTransGen_next_iff (hp : p.IsIn text) :
    ReflTransGen (fun p q => p.next? .any = some q) p q ↔ q.IsIn text ∧ q.after <:+ p.after := by
  constructor
  · intro hreach
    induction hreach with
    | refl => exact ⟨hp, List.suffix_refl _⟩
    | tail _ hlast ih =>
      obtain ⟨c, _, hafter, _⟩ := Place.exists_of_next? hlast
      exact ⟨ih.1.next? hlast, (hafter ▸ List.suffix_cons c _ : _ <:+ _).trans ih.2⟩
  · rintro ⟨hq, run, hrun⟩
    induction run generalizing p with
    | nil => exact hq.eq_of_after hp hrun ▸ .refl
    | cons c run ih =>
      have hnext : p.next? .any = some ⟨p.index + 1, some c, run ++ q.after⟩ := by
        simp [Place.next?, ← hrun, CharTest.admits]
      exact .head hnext (ih (hp.next? hnext) rfl)

/-- Any number of characters leads to all places behind. -/
theorem mem_ends_repeated (hps : IsSet text ps) :
    IsSet text ((Regex.repeated (.one .any) 0 none).ends ps) ∧
      ∀ q, q ∈ (Regex.repeated (.one .any) 0 none).ends ps ↔
        q.IsIn text ∧ ∃ p ∈ ps, q.after <:+ p.after := by
  have hnext (p q : Place) (h : p.next? .any = some q) : q.after.length < p.after.length := by
    obtain ⟨_, _, hafter, _⟩ := Place.exists_of_next? h
    simp [hafter]
  have hone (ps : List Place) (h : IsSet text ps) : IsSet text ((Regex.one .any).ends ps) :=
    h.one .any
  obtain ⟨hset, hmem⟩ := mem_stepsUpTo hone (fun _ _ => mem_ends_one) hnext hps hps (fun _ => id)
    (fun p hp => .inl hp) fun p hp => hps.length_after_lt hp
  refine ⟨hset, fun q => (hmem q).trans ?_⟩
  constructor
  · rintro ⟨p, hp, hreach⟩
    have hbehind := (reflTransGen_next_iff (hps.isIn p hp)).mp hreach
    exact ⟨hbehind.1, p, hp, hbehind.2⟩
  · rintro ⟨hq, p, hp, hsuffix⟩
    exact ⟨p, hp, (reflTransGen_next_iff (hps.isIn p hp)).mpr ⟨hq, hsuffix⟩⟩

end Regex

/-! ## Wildcard patterns as regular expressions -/

namespace Like

open Regex

variable {p : Char} {pattern text : List Char} {ps : List Place}

theorem stands_underscore_iff {run : List Char} : Stands '_' run ↔ ∃ c, run = [c] := by
  simp [Stands, List.length_eq_one_iff]

theorem stands_iff_of_ne (hany : p ≠ '%') (hone : p ≠ '_') {run : List Char} :
    Stands p run ↔ run = [p] := by
  simp [Stands, hany, hone]

/-- The expression for a character leads behind the runs for which the character stands. -/
theorem mem_ends_partRegex (hps : IsSet text ps) (p : Char) :
    IsSet text ((partRegex p).ends ps) ∧
      ∀ q, q ∈ (partRegex p).ends ps ↔
        q.IsIn text ∧ ∃ p' ∈ ps, ∃ run, p'.after = run ++ q.after ∧ Stands p run := by
  have hone {test : CharTest}
      (hstands : ∀ run, Stands p run ↔ ∃ c, run = [c] ∧ test.admits c = true) :
      IsSet text ((Regex.one test).ends ps) ∧
        ∀ q, q ∈ (Regex.one test).ends ps ↔
          q.IsIn text ∧ ∃ p' ∈ ps, ∃ run, p'.after = run ++ q.after ∧ Stands p run := by
    refine ⟨hps.one test, fun q => mem_ends_one.trans ?_⟩
    constructor
    · rintro ⟨p', hp', hnext⟩
      obtain ⟨hq, c, hc, hafter⟩ := (next?_eq_some_iff (hps.isIn p' hp')).mp hnext
      exact ⟨hq, p', hp', [c], hafter, (hstands _).mpr ⟨c, rfl, hc⟩⟩
    · rintro ⟨hq, p', hp', run, hafter, hrun⟩
      obtain ⟨c, rfl, hc⟩ := (hstands _).mp hrun
      exact ⟨p', hp', (next?_eq_some_iff (hps.isIn p' hp')).mpr ⟨hq, c, hc, hafter⟩⟩
  by_cases hany : p = '%'
  · subst hany
    obtain ⟨hset, hmem⟩ := mem_ends_repeated hps
    refine ⟨hset, fun q => (hmem q).trans ?_⟩
    simp [stands_percent, List.IsSuffix, eq_comm]
  · by_cases hsingle : p = '_'
    · subst hsingle
      exact hone fun run => by simp [stands_underscore_iff, CharTest.admits]
    · rw [show partRegex p = .one (.exactly p) by simp [partRegex, hany, hsingle]]
      exact hone fun run => by simp [stands_iff_of_ne hany hsingle, CharTest.admits]

/-- A match of the expression ends behind what matches the pattern. -/
theorem mem_ends_foldr (hps : IsSet text ps) (q : Place) :
    q ∈ (pattern.foldr (fun p r => .seq (partRegex p) r) .empty : Regex).ends ps ↔
      q.IsIn text ∧ ∃ p ∈ ps, ∃ run, p.after = run ++ q.after ∧ Splits pattern run := by
  induction pattern generalizing ps with
  | nil =>
    simp only [splits_nil_iff, exists_eq_right]
    constructor
    · exact fun hq => ⟨hps.isIn q hq, q, hq, rfl⟩
    · rintro ⟨hq, p, hp, hafter⟩
      exact (hps.isIn p hp).eq_of_after hq hafter ▸ hp
  | cons p pattern ih =>
    obtain ⟨hset, hmem⟩ := mem_ends_partRegex hps p
    refine (ih hset).trans ?_
    simp only [hmem]
    constructor
    · rintro ⟨hq, _, ⟨_, p', hp', run, hafter, hrun⟩, run', hafter', hpattern⟩
      refine ⟨hq, p', hp', run ++ run', ?_, .cons hrun hpattern⟩
      rw [hafter, hafter', List.append_assoc]
    · rintro ⟨hq, p', hp', _, hafter, hsplits⟩
      obtain ⟨run, run', rfl, hrun, hpattern⟩ := splits_cons_iff.mp hsplits
      rw [List.append_assoc] at hafter
      obtain ⟨q', hq', hafter'⟩ := (hps.isIn p' hp').exists_behind hafter
      exact ⟨hq, q', ⟨hq', p', hp', run, hafter' ▸ hafter, hrun⟩, run', hafter', hpattern⟩

theorem fullMatch_iff : (toRegex pattern).fullMatch text = true ↔ Splits pattern text := by
  have hset : IsSet text [.first text] := ⟨by simp [Place.isIn_first], List.pairwise_singleton _ _⟩
  simp only [Regex.fullMatch, toRegex, List.any_eq_true, List.isEmpty_iff, mem_ends_foldr hset,
    List.mem_singleton, exists_eq_left, splits_thinned]
  constructor
  · rintro ⟨q, ⟨_, run, hafter, hsplits⟩, hend⟩
    rw [hend, List.append_nil] at hafter
    exact (show text = run from hafter) ▸ hsplits
  · intro hsplits
    obtain ⟨q, hq, hafter⟩ := (Place.isIn_first text).exists_behind (List.append_nil text).symm
    exact ⟨q, ⟨hq, text, by simp [hafter, Place.first], hsplits⟩, hafter⟩

/-! ## Both rules -/

/-- What the rule of stored annotations sees of a text. -/
def foldedText (text : String) : List Char := untilNull (Text.lower text.toList)

theorem folded_iff {pattern text : String} :
    folded pattern text = true ↔ Splits (foldedText pattern) (foldedText text) :=
  wildcardMatch_iff

theorem exact_iff {pattern text : String} :
    exact pattern text = true ↔ Splits pattern.toList text.toList :=
  fullMatch_iff

end Like
end Provenance
