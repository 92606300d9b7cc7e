-- SUMMARY: When the sums that a deviation of integers is made from can be computed.
import Provenance.Proofs.BlankKeys
import Provenance.Proofs.SmallWorlds
import Mathlib.Algebra.Order.BigOperators.Group.List
import Mathlib.Algebra.Order.Ring.Int
import Mathlib.Data.List.TakeWhile

/-!
# Deviations of integers

A deviation is made from the sum of the numbers and the sum of their squares, and both are sums of
integers as long as their terms are. A sum that leaves the word makes the statement fail, however
close to each other the numbers are. A square that does not fit into a word is a double, and from
there on the sum of squares cannot fail any more: so large numbers do no harm as squares, and those
in between do. Where sums are made with a correction, one such square is enough wherever it stands:
what the integers before it have lost does not count then.
-/
namespace Provenance

/-! ## Decimal integers -/

namespace Literal

theorem isAsciiBlank_of_isAsciiDigit {c : Char} (h : isAsciiDigit c = true) :
    Number.isAsciiBlank c = false := by
  have hlow : '0' ≤ c := by
    simp only [isAsciiDigit, Bool.and_eq_true, decide_eq_true_eq] at h
    exact h.1
  rw [Bool.eq_false_iff]
  intro hblank
  simp only [Number.isAsciiBlank, Bool.or_eq_true, Bool.and_eq_true, decide_eq_true_eq] at hblank
  rcases hblank with rfl | ⟨_, hhigh⟩
  · exact absurd hlow (by decide)
  · exact absurd (Char.le_trans hlow hhigh) (by decide)

/-- Digits have no sign before them. -/
theorem sign_of_isAsciiDigit {ds : List Char} (h : ∀ c ∈ ds, isAsciiDigit c = true) :
    sign ds = (false, ds) := by
  unfold sign
  split
  · exact absurd (h '-' (by simp)) (by decide)
  · exact absurd (h '+' (by simp)) (by decide)
  · rfl

/-- Digits after a sign or none are read as an integer. -/
theorem scan?_of_digits {cs ds : List Char} {negative : Bool} (hsign : sign cs = (negative, ds))
    (hsome : ds ≠ []) (hdigits : ∀ c ∈ ds, isAsciiDigit c = true) :
    scan? cs = some (⟨negative, ofDigits ds, 0, true⟩, []) := by
  have hread : digits ds = (ds, []) :=
    Prod.ext (List.takeWhile_eq_self_iff.mpr hdigits) (List.dropWhile_eq_nil_iff.mpr hdigits)
  simp [scan?, hsign, hread, hsome, fractionPart?, exponentPart?]

end Literal

/-- The value writes an integer in decimal, which fits into a word. -/
inductive Value.WritesInteger : Value → Int → Prop
  | number {n : Int} (h : Number.inWord n = true) : WritesInteger (.num (.int n)) n
  | digits {s : String} {ds : List Char} (hs : s.toList = ds ∨ s.toList = '+' :: ds)
      (hsome : ds ≠ []) (hdigits : ∀ c ∈ ds, Literal.isAsciiDigit c = true)
      (h : Number.inWord (Literal.ofDigits ds) = true) :
      WritesInteger (.text s) (Literal.ofDigits ds)
  | minus {s : String} {ds : List Char} (hs : s.toList = '-' :: ds) (hsome : ds ≠ [])
      (hdigits : ∀ c ∈ ds, Literal.isAsciiDigit c = true)
      (h : Number.inWord (-(Literal.ofDigits ds : Int)) = true) :
      WritesInteger (.text s) (-(Literal.ofDigits ds : Int))

namespace Number

/-- Digits are read exactly, if they fit into a word. -/
theorem ofText_of_digits {s : String} {ds : List Char} {negative : Bool} {n : Int}
    (hfirst : ∀ c ∈ s.toList.head?, isAsciiBlank c = false)
    (hsign : Literal.sign s.toList = (negative, ds)) (hsome : ds ≠ [])
    (hdigits : ∀ c ∈ ds, Literal.isAsciiDigit c = true)
    (hn : (⟨negative, Literal.ofDigits ds, 0, true⟩ : Literal).toInt = n)
    (hword : inWord n = true) : ofText s = int n := by
  have hblanks : s.toList.dropWhile isAsciiBlank = s.toList := by
    cases hs : s.toList with
    | nil => rfl
    | cons c cs =>
      rw [hs] at hfirst
      rw [List.dropWhile_cons_of_neg (by simp [hfirst c rfl])]
  unfold ofText
  rw [hblanks, Literal.scan?_of_digits hsign hsome hdigits]
  subst hn
  simp [ofLiteral, hword]

end Number

theorem Environment.numberOf_of_writesInteger {v : Value} {n : Int} (h : v.WritesInteger n) :
    numberOf v = .int n := by
  cases h with
  | number => rfl
  | digits hs hsome hdigits h =>
    rcases hs with rfl | hs
    · -- without a sign the first character is a digit, which is no blank to be skipped
      exact Number.ofText_of_digits (fun c hc => Literal.isAsciiBlank_of_isAsciiDigit
        (hdigits c (List.mem_of_mem_head? hc))) (Literal.sign_of_isAsciiDigit hdigits) hsome hdigits
        rfl h
    · exact Number.ofText_of_digits (by simp [hs, Number.isAsciiBlank]) (by rw [hs]; rfl) hsome
        hdigits rfl h
  | minus hs hsome hdigits h =>
    exact Number.ofText_of_digits (by simp [hs, Number.isAsciiBlank]) (by rw [hs]; rfl) hsome
      hdigits rfl h

/-! ## Sums that fit -/

namespace Number

/-- Every partial sum of the integers fits into a word. -/
def SumsInWord (ns : List Int) : Prop := ∀ part, part <+: ns → inWord part.sum = true

/-- The integers before the first double. -/
def leading : List Number → List Int
  | int n :: ns => n :: leading ns
  | _ => []

/-- Beginnings with an integer in front are those of the rest, counted from what is summed up by
then. -/
theorem forall_prefix_cons_iff {k n : Int} {ns : List Int} (hk : inWord k = true) :
    (∀ part, part <+: n :: ns → inWord (k + part.sum) = true) ↔
      ∀ part, part <+: ns → inWord (k + n + part.sum) = true := by
  constructor
  · intro h part hpart
    have := h (n :: part) (List.prefix_cons_iff.mpr (.inr ⟨part, rfl, hpart⟩))
    rwa [List.sum_cons, ← Int.add_assoc] at this
  · intro h part hpart
    rcases List.prefix_cons_iff.mp hpart with rfl | ⟨rest, rfl, hrest⟩
    · simpa using hk
    · rw [List.sum_cons, ← Int.add_assoc]
      exact h rest hrest

namespace Sum

variable [rule : Summation] {s : Sum}

/-! ### What one number does

Which sum of doubles is made plays no part: a sum fails by what is known of it as one of integers. -/

theorem add_int_of_hasReal (hreal : s.hasReal = true) (n : Int) :
    (s.add (int n)).hasReal = true ∧ (s.add (int n)).overflowed = s.overflowed := by
  cases rule with
  | plain => simp [add, addPlain, hreal]
  | compensated => simp [add, addCompensated, compensateInt, compensate, hreal]

theorem add_int_of_inWord (hreal : s.hasReal = false) (hover : s.overflowed = false) {n : Int}
    (hword : inWord (s.exact + n) = true) :
    (s.add (int n)).hasReal = false ∧ (s.add (int n)).overflowed = false ∧
      (s.add (int n)).exact = s.exact + n := by
  cases rule with
  | plain => simp [add, addPlain, hreal, hover, hword]
  | compensated => simp [add, addCompensated, hreal, hover, hword]

theorem add_int_of_not_inWord (hreal : s.hasReal = false) (hover : s.overflowed = false) {n : Int}
    (hword : ¬ inWord (s.exact + n) = true) :
    (s.add (int n)).hasReal = true ∧ (s.add (int n)).overflowed = true := by
  cases rule with
  | plain => simp [add, addPlain, hreal, hover, hword]
  | compensated => simp [add, addCompensated, compensateInt, compensate, widen, hreal, hword]

theorem hasReal_add_real (s : Sum) (x : Float) : (s.add (real x)).hasReal = true := by
  cases rule with
  | plain => rfl
  | compensated => cases hreal : s.hasReal <;> simp [add, addCompensated, compensate, widen, hreal]

/-- A double clears a sum that has left the word, if the engine adds with a correction. -/
theorem overflowed_add_real (s : Sum) (x : Float) :
    (s.add (real x)).overflowed = false ↔ rule = .compensated ∨ s.overflowed = false := by
  cases rule with
  | plain => simp [add, addPlain]
  | compensated => simp [add, addCompensated]

/-! ### What many do -/

/-- After a double nothing is added up exactly any more, and so nothing can leave the word. What has
left it before is cleared by a double or not. -/
theorem overflowed_foldl_of_hasReal (hreal : s.hasReal = true) (ns : List Number) :
    (ns.foldl add s).overflowed = false ↔
      (rule = .compensated ∧ ∃ x, real x ∈ ns) ∨ s.overflowed = false := by
  induction ns generalizing s with
  | nil => simp
  | cons n ns ih =>
    rw [List.foldl_cons]
    cases n with
    | int n =>
      obtain ⟨hreal, hover⟩ := add_int_of_hasReal hreal n
      simp [ih hreal, hover]
    | real x =>
      rw [ih (hasReal_add_real s x), overflowed_add_real]
      have hx : ∃ y, real y ∈ real x :: ns := ⟨x, List.mem_cons_self⟩
      simp only [hx, and_true]
      tauto

theorem overflowed_foldl_eq_false_iff (hreal : s.hasReal = false) (hover : s.overflowed = false)
    (hexact : inWord s.exact = true) (ns : List Number) :
    (ns.foldl add s).overflowed = false ↔
      (rule = .compensated ∧ ∃ x, real x ∈ ns) ∨
        ∀ part, part <+: leading ns → inWord (s.exact + part.sum) = true := by
  induction ns generalizing s with
  | nil => simp [leading, hover, hexact]
  | cons n ns ih =>
    rw [List.foldl_cons]
    cases n with
    | real x =>
      have hkept : (ns.foldl add (s.add (real x))).overflowed = false :=
        (overflowed_foldl_of_hasReal (hasReal_add_real s x) ns).mpr
          (.inr ((overflowed_add_real s x).mpr (.inr hover)))
      simp [hkept, leading, hexact]
    | int n =>
      simp only [leading, forall_prefix_cons_iff hexact]
      by_cases hword : inWord (s.exact + n) = true
      · obtain ⟨hreal, hover, hadded⟩ := add_int_of_inWord hreal hover hword
        rw [ih hreal hover (by rwa [hadded]), hadded]
        simp
      · -- what has left the word stays out, also if later integers would bring it back
        obtain ⟨hreal, hover⟩ := add_int_of_not_inWord hreal hover hword
        have hnone : ¬ ∀ part, part <+: leading ns → inWord (s.exact + n + part.sum) = true :=
          fun h => hword (by simpa using h [] List.nil_prefix)
        rw [overflowed_foldl_of_hasReal hreal, or_iff_left hnone, hover]
        simp

theorem exists_total (h : s.overflowed = false) : ∃ x, s.total = .ok x := by
  cases hreal : s.hasReal <;> simp [total, h, hreal]

theorem total_of_overflowed (h : ¬ s.overflowed = false) : s.total = .error .statementFailed := by
  simp [total, h]

/-- A sum overflows exactly when some partial sum of the integers before the first double leaves the
word, and no double clears that. -/
theorem overflowed_ofList_eq_false_iff (ns : List Number) :
    (ofList ns).overflowed = false ↔
      (rule = .compensated ∧ ∃ x, real x ∈ ns) ∨ SumsInWord (leading ns) := by
  have h := overflowed_foldl_eq_false_iff (s := zero) rfl rfl (by decide) ns
  simp only [show zero.exact = 0 from rfl, Int.zero_add] at h
  exact h

/-- A sum of integers goes over to doubles only by leaving the word. -/
theorem hasReal_foldl_ints (h : s.hasReal = s.overflowed) (ns : List Int) :
    ((ns.map int).foldl add s).hasReal = ((ns.map int).foldl add s).overflowed := by
  induction ns generalizing s with
  | nil => exact h
  | cons n ns ih =>
    refine ih ?_
    cases hreal : s.hasReal with
    | true =>
      obtain ⟨hreal', hover⟩ := add_int_of_hasReal hreal n
      rw [hreal', hover, ← h, hreal]
    | false =>
      have hover := h.symm.trans hreal
      by_cases hword : inWord (s.exact + n) = true
      · obtain ⟨hreal', hover', -⟩ := add_int_of_inWord hreal hover hword
        rw [hreal', hover']
      · obtain ⟨hreal', hover'⟩ := add_int_of_not_inWord hreal hover hword
        rw [hreal', hover']

/-- Integers that can be summed up have a sum. -/
theorem isMissing_ofList_ints {ns : List Int}
    (h : (ofList (ns.map int)).overflowed = false) : (ofList (ns.map int)).isMissing = false := by
  have hreal : (ofList (ns.map int)).hasReal = false := (hasReal_foldl_ints rfl ns).trans h
  simp [isMissing, hreal]

end Sum

theorem leading_map_int (ns : List Int) : leading (ns.map int) = ns := by
  induction ns with
  | nil => rfl
  | cons n ns ih => exact congrArg (n :: ·) ih

/-- The squares before the first that does not fit into a word. -/
theorem leading_squares (ns : List Int) :
    leading ((ns.map int).map square) = (ns.map fun n => n * n).takeWhile inWord := by
  induction ns with
  | nil => rfl
  | cons n ns ih =>
    by_cases hword : inWord (n * n) = true
    · simp only [List.map_cons, square, if_pos hword, leading, ih,
        List.takeWhile_cons_of_pos hword]
    · simp only [List.map_cons, square, if_neg hword, leading, List.takeWhile_cons_of_neg hword]

/-- Where nothing is negative, the last partial sum is the greatest. -/
theorem sumsInWord_iff_of_nonneg {ns : List Int} (h : ∀ n ∈ ns, 0 ≤ n) :
    SumsInWord ns ↔ inWord ns.sum = true := by
  refine ⟨fun hsums => hsums ns List.prefix_rfl, fun hsum part hpart => ?_⟩
  obtain ⟨rest, rfl⟩ := hpart
  have hpart : 0 ≤ part.sum := List.sum_nonneg fun n hn => h n (List.mem_append_left _ hn)
  have hrest : 0 ≤ rest.sum := List.sum_nonneg fun n hn => h n (List.mem_append_right _ hn)
  rw [List.sum_append] at hsum
  simp only [inWord, Bool.and_eq_true, decide_eq_true_eq] at hsum ⊢
  omega

/-- Some square is a double just if it does not fit into a word. -/
theorem exists_real_squares_iff (ns : List Int) :
    (∃ x, real x ∈ (ns.map int).map square) ↔ ∃ n ∈ ns, inWord (n * n) = false := by
  simp only [List.map_map, List.mem_map, Function.comp_apply]
  constructor
  · rintro ⟨x, n, hn, hx⟩
    refine ⟨n, hn, Bool.eq_false_iff.mpr fun hword => ?_⟩
    simp [square, hword] at hx
  · rintro ⟨n, hn, hword⟩
    exact ⟨_, n, hn, if_neg (by simp [hword])⟩

section Deviation

variable [rule : Summation]

/-- The sums that a deviation is made from can be computed. Among the squares a double may make good
what the integers before it lost. -/
structure DeviationFits (ns : List Int) : Prop where
  sums : SumsInWord ns
  squares : (rule = .compensated ∧ ∃ n ∈ ns, inWord (n * n) = false) ∨
    inWord ((ns.map fun n => n * n).takeWhile inWord).sum = true

theorem overflowed_ints_eq_false_iff (ns : List Int) :
    (Sum.ofList (ns.map int)).overflowed = false ↔ SumsInWord ns := by
  rw [Sum.overflowed_ofList_eq_false_iff, leading_map_int]
  simp

theorem overflowed_squares_eq_false_iff (ns : List Int) :
    (Sum.ofList ((ns.map int).map square)).overflowed = false ↔
      (rule = .compensated ∧ ∃ n ∈ ns, inWord (n * n) = false) ∨
        inWord ((ns.map fun n => n * n).takeWhile inWord).sum = true := by
  rw [Sum.overflowed_ofList_eq_false_iff, exists_real_squares_iff, leading_squares,
    sumsInWord_iff_of_nonneg]
  intro n hn
  obtain ⟨k, _, rfl⟩ := List.mem_map.mp ((List.takeWhile_prefix _).subset hn)
  exact mul_self_nonneg k

/-- Two integers or more have a deviation if their sums fit. -/
theorem exists_deviation {ns : List Int} (htwo : 2 ≤ ns.length) (h : DeviationFits ns) :
    ∃ x, deviation (ns.map int) = .ok (some x) := by
  have hsum := (overflowed_ints_eq_false_iff ns).mpr h.sums
  have hsquares := (overflowed_squares_eq_false_iff ns).mpr h.squares
  obtain ⟨total, htotal₁⟩ := Sum.exists_total hsum
  obtain ⟨squares, htotal₂⟩ := Sum.exists_total hsquares
  have hfew : ¬ (ns.map int).length < 2 := by
    rw [List.length_map]
    omega
  have hfound : ¬ (Sum.ofList (ns.map int)).isMissing = true := by
    simp [Sum.isMissing_ofList_ints hsum]
  rw [deviation, htotal₁, ok_bind, htotal₂, ok_bind, if_neg hfew]
  simp only [if_neg hfound]
  exact ⟨_, rfl⟩

/-- If not, there is none to be had: the statement fails. -/
theorem deviation_of_not_fits {ns : List Int} (h : ¬ DeviationFits ns) :
    deviation (ns.map int) = .error .statementFailed := by
  rw [deviation]
  -- the sum of the numbers is asked for first, and either sum fails in the same way
  by_cases hsum : (Sum.ofList (ns.map int)).overflowed = false
  · obtain ⟨total, htotal⟩ := Sum.exists_total hsum
    rw [overflowed_ints_eq_false_iff] at hsum
    have hsquares := mt (overflowed_squares_eq_false_iff ns).mp fun hsquares => h ⟨hsum, hsquares⟩
    rw [htotal, ok_bind, Sum.total_of_overflowed hsquares]
    rfl
  · rw [Sum.total_of_overflowed hsum]
    rfl

end Deviation

end Number

/-! ## The instruction -/

namespace Environment

variable [Summation] {env : Environment} {s : Store} {e : Element} {key : String} {g : GraphRef}

omit [Summation] in
theorem map_numberOf {vs : List Value} {ns : List Int} (h : vs.Forall₂ Value.WritesInteger ns) :
    vs.map numberOf = ns.map .int := by
  induction h with
  | nil => rfl
  | cons hv _ ih => rw [List.map_cons, List.map_cons, numberOf_of_writesInteger hv, ih]

theorem standardDeviation_of_presentValues {vs : List Value} {ns : List Int}
    (hvalues : (env.presentValues g e key).perform s = (.ok vs, s))
    (hns : vs.Forall₂ Value.WritesInteger ns) :
    (env.standardDeviation g e key).perform s = (Number.deviation (ns.map .int), s) := by
  have hnumbers : (env.presentNumbers g e key).perform s = (.ok (ns.map .int), s) :=
    (Program.perform_bind_of_ok hvalues).trans (by rw [map_numberOf hns]; rfl)
  refine (Program.perform_bind_of_ok hnumbers).trans ?_
  cases Number.deviation (ns.map .int) <;> rfl

/-- The deviation of two integers or more is computed exactly when their sums fit. Otherwise the
statement fails, and nothing has changed. -/
theorem standardDeviation_integers_iff (hbase : env.Readable s.database .base)
    (hg : env.Readable s.database g) (hkey : env.HasColumns s.database e [key]) :
    ∃ table? cells, env.restriction? g e = .ok table? ∧
      env.cellsInScope s.database e table? key = .ok cells ∧
      ∀ ns, (cells.filter isPresent).Forall₂ Value.WritesInteger ns → 2 ≤ ns.length →
        ((∃ x, (env.standardDeviation g e key).perform s = (.ok (some x), s)) ↔
          Number.DeviationFits ns) ∧
        (¬ Number.DeviationFits ns →
          (env.standardDeviation g e key).perform s = (.error .statementFailed, s)) := by
  obtain ⟨table?, cells, htable, hcells, hvalues⟩ := exists_presentValues hbase hg hkey
  refine ⟨table?, cells, htable, hcells, fun ns hns htwo => ?_⟩
  rw [standardDeviation_of_presentValues hvalues hns]
  by_cases hfits : Number.DeviationFits ns
  · obtain ⟨x, hx⟩ := Number.exists_deviation htwo hfits
    exact ⟨iff_of_true ⟨x, by rw [hx]⟩ hfits, fun h => absurd hfits h⟩
  · rw [Number.deviation_of_not_fits hfits]
    exact ⟨iff_of_false (by simp) hfits, fun _ => rfl⟩

end Environment

namespace SmallWorld

/-- Two vertices with a number each, and no edge. -/
def numbered (a b : String) : World :=
  ⟨[⟨.text "a", [("k", .text a)]⟩, ⟨.text "b", [("k", .text b)]⟩], [], [], []⟩

theorem keysOf_numbered (a b : String) : World.keysOf (numbered a b).vertexKeys
    ((numbered a b).vertices.map (·.annotations)) = ["k"] :=
  World.keysOf_eq rfl (by decide)

/-- Both numbers are read under their key. -/
theorem wp_load_numbered (a b : String) : ((numbered a b).load environment.schema).wp
    (fun _ s => environment.Readable s.database .base ∧
      environment.HasColumns s.database .vertex ["k"] ∧
      environment.cellsInScope s.database .vertex none "k" = .ok [.text a, .text b]) start := by
  have hload : (numbered a b).CanLoad environment.schema := by
    refine ⟨by decide, by decide, by decide, ?_, ?_⟩
    · rw [keysOf_numbered]
      exact ⟨by decide, by decide, by decide, by decide⟩
    · rw [show World.keysOf (numbered a b).edgeKeys ((numbered a b).edges.map (·.annotations)) = []
        from World.keysOf_eq rfl (by decide)]
      exact ⟨by decide, by decide, by decide, by decide⟩
  refine (World.load_rows hload).mono fun _ s h => ?_
  obtain ⟨hvertices, hedges, _⟩ := h
  have hrows : (numbered a b).vertexRows environment.schema =
      ⟨[⟨"hash", .text⟩, ⟨"k", .text⟩],
        [⟨[("hash", .text "a"), ("k", .text a)]⟩, ⟨[("hash", .text "b"), ("k", .text b)]⟩]⟩ := by
    rw [World.vertexRows, keysOf_numbered]
    rfl
  rw [hrows] at hvertices
  refine ⟨⟨_, rfl, fun e => ?_⟩, fun t ht column hcolumn => ?_, ?_⟩
  · cases e with
    | vertex => exact ⟨_, hvertices, rfl⟩
    | edge =>
      refine ⟨_, hedges, (World.keepsIds_filled idAffinity_eq ?_).has⟩
      simp [Schema.reserved]
  · obtain rfl := Option.some.inj (hvertices.symm.trans ht)
    obtain rfl := List.mem_singleton.mp hcolumn
    rfl
  · exact (Environment.cellsInScope_base (e := .vertex) hvertices rfl).trans rfl

/-- The numbers one and three deviate. -/
theorem standardDeviation_integers_iff_numbered :
    Program.wp ((numbered "1" "3").load environment.schema) (fun _ s => ∃ x,
      (environment.standardDeviation .base .vertex "k").perform s = (.ok (some x), s)) start := by
  refine (wp_load_numbered "1" "3").mono fun _ s h => ?_
  obtain ⟨hbase, hkey, hcells⟩ := h
  obtain ⟨table?, cells, htable, hfound, hiff⟩ :=
    Environment.standardDeviation_integers_iff hbase hbase hkey
  obtain rfl := Except.ok.inj htable
  obtain rfl := Except.ok.inj (hcells.symm.trans hfound)
  have hone : (Value.text "1").WritesInteger 1 :=
    .digits (.inl (Eq.refl "1".toList)) (by decide) (List.all_eq_true.mp rfl) (by decide)
  have hthree : (Value.text "3").WritesInteger 3 :=
    .digits (.inl (Eq.refl "3".toList)) (by decide) (List.all_eq_true.mp rfl) (by decide)
  refine (hiff [1, 3] (.cons hone (.cons hthree .nil)) le_rfl).1.mpr ⟨?_, .inr (by decide)⟩
  rw [Number.sumsInWord_iff_of_nonneg (by simp)]
  decide

/-- Half of the least integer that is too great for a word. -/
def half : String := "4611686018427387904"

theorem half_writesInteger : (Value.text half).WritesInteger 4611686018427387904 :=
  .digits (.inl (Eq.refl half.toList)) (by decide) (List.all_eq_true.mp rfl) (by decide)

/-- Two equal integers have no deviation computed where together they leave the word. -/
theorem not_standardDeviation_half :
    (Value.text half).WritesInteger 4611686018427387904 ∧
    Program.wp ((numbered half half).load environment.schema) (fun _ s =>
      environment.HasColumns s.database .vertex ["k"] ∧
      environment.cellsInScope s.database .vertex none "k" = .ok [.text half, .text half] ∧
      (environment.standardDeviation .base .vertex "k").perform s = (.error .statementFailed, s))
      start := by
  refine ⟨half_writesInteger, (wp_load_numbered half half).mono fun _ s h => ?_⟩
  obtain ⟨hbase, hkey, hcells⟩ := h
  obtain ⟨table?, cells, htable, hfound, hvalues⟩ :=
    Environment.exists_presentValues hbase hbase hkey
  obtain rfl := Except.ok.inj htable
  obtain rfl := Except.ok.inj (hcells.symm.trans hfound)
  -- the squares would do no harm: neither fits into a word, so they are doubles
  have hfits : ¬ Number.DeviationFits [4611686018427387904, 4611686018427387904] :=
    fun h => absurd (h.sums _ List.prefix_rfl) (by decide)
  refine ⟨hkey, hcells, ?_⟩
  rw [Environment.standardDeviation_of_presentValues hvalues
    (.cons half_writesInteger (.cons half_writesInteger .nil)), Number.deviation_of_not_fits hfits]

end SmallWorld
end Provenance
