-- SUMMARY: Values that their order tells apart.
import Provenance.Value
import Mathlib.Data.List.Sort
import Mathlib.Data.Rat.Lemmas
import Mathlib.Algebra.Field.Rat
import Mathlib.Data.Nat.Cast.Field

/-!
# The order of values

Statements that take the least of several values are about values that the order tells apart. Texts and
integers are of this kind; numbers that may be written in two forms are not.
-/
namespace Provenance

namespace Value

theorem ne_null_of_le {a b : Value} (h : a.le b = true) (ha : a ≠ null) : b ≠ null := by
  rintro rfl
  cases a with
  | null => exact ha rfl
  | num => cases h
  | text => cases h

/-- No two of the values are alike in the order. -/
structure Ordered (P : Value → Prop) : Prop where
  total : ∀ {a b}, P a → P b → a.le b = true ∨ b.le a = true
  trans : ∀ {a b c}, P a → P b → P c → a.le b = true → b.le c = true → a.le c = true
  antisymm : ∀ {a b}, P a → P b → a.le b = true → b.le a = true → a = b

/-- Nulls come before all others. -/
theorem Ordered.withNull {P : Value → Prop} (h : Ordered fun v => v ≠ null ∧ P v) : Ordered P where
  total {a b} ha hb := by
    by_cases hna : a = null
    · exact .inl (hna ▸ rfl)
    by_cases hnb : b = null
    · exact .inr (hnb ▸ rfl)
    exact h.total ⟨hna, ha⟩ ⟨hnb, hb⟩
  trans {a b c} ha hb hc hab hbc := by
    by_cases hna : a = null
    · exact hna ▸ rfl
    have hnb : b ≠ null := ne_null_of_le hab hna
    exact h.trans ⟨hna, ha⟩ ⟨hnb, hb⟩ ⟨ne_null_of_le hbc hnb, hc⟩ hab hbc
  antisymm {a b} ha hb hab hba := by
    by_cases hna : a = null
    · by_contra hne
      exact ne_null_of_le hba (fun hnb => hne (hna.trans hnb.symm)) hna
    · exact h.antisymm ⟨hna, ha⟩ ⟨ne_null_of_le hab hna, hb⟩ hab hba

/-- The value is among these, and none of them comes before it. -/
def IsLeast (P : Value → Prop) (v : Value) : Prop := P v ∧ ∀ w, P w → v.le w = true

/-- Integers come before texts, and two of one kind are told apart. -/
theorem ordered_of_exact {P : Value → Prop}
    (h : ∀ v, P v → (∃ n, v = .num (.int n)) ∨ ∃ s, v = .text s) : Ordered P where
  total ha hb := by
    obtain ⟨a, rfl⟩ | ⟨a, rfl⟩ := h _ ha <;> obtain ⟨b, rfl⟩ | ⟨b, rfl⟩ := h _ hb
    · simpa [le, Number.le] using Int.le_total a b
    · exact .inl rfl
    · exact .inr rfl
    · simpa [le] using String.le_total a b
  trans ha hb hc hab hbc := by
    obtain ⟨a, rfl⟩ | ⟨a, rfl⟩ := h _ ha <;> obtain ⟨b, rfl⟩ | ⟨b, rfl⟩ := h _ hb <;>
      obtain ⟨c, rfl⟩ | ⟨c, rfl⟩ := h _ hc
    · simp only [le, Number.le, decide_eq_true_eq] at hab hbc ⊢
      exact hab.trans hbc
    · rfl
    · cases hbc
    · rfl
    · cases hab
    · cases hab
    · cases hbc
    · simp only [le, decide_eq_true_eq] at hab hbc ⊢
      exact String.le_trans hab hbc
  antisymm ha hb hab hba := by
    obtain ⟨a, rfl⟩ | ⟨a, rfl⟩ := h _ ha <;> obtain ⟨b, rfl⟩ | ⟨b, rfl⟩ := h _ hb
    · simp only [le, Number.le, decide_eq_true_eq] at hab hba
      rw [Int.le_antisymm hab hba]
    · cases hba
    · cases hab
    · simp only [le, decide_eq_true_eq] at hab hba
      rw [String.le_antisymm hab hba]

theorem ordered_of_texts {P : Value → Prop} (h : ∀ v, P v → ∃ s, v = .text s) : Ordered P :=
  ordered_of_exact fun v hv => .inr (h v hv)

/-- The least of some values is one of them. -/
theorem least_mem {vs : List Value} (h : vs ≠ []) : least vs ∈ vs := by
  unfold least
  cases hlist : (vs.filter (· ≠ null)).mergeSort le with
  | nil =>
    -- without any other value, all of them are null
    have hnulls : vs.filter (· ≠ null) = [] := by
      simpa using congrArg List.length hlist
    obtain ⟨v, hv⟩ := List.exists_mem_of_ne_nil vs h
    have hnull : v = null := by simpa using List.filter_eq_nil_iff.mp hnulls v hv
    exact hnull ▸ hv
  | cons w ws =>
    have hw : w ∈ (vs.filter (· ≠ null)).mergeSort le := by
      rw [hlist]
      exact List.mem_cons_self
    exact (List.mem_filter.mp (List.mem_mergeSort.mp hw)).1

namespace Ordered

variable {P Q : Value → Prop} {vs : List Value}

theorem mono (h : Ordered Q) (hPQ : ∀ v, P v → Q v) : Ordered P where
  total ha hb := h.total (hPQ _ ha) (hPQ _ hb)
  trans ha hb hc := h.trans (hPQ _ ha) (hPQ _ hb) (hPQ _ hc)
  antisymm ha hb := h.antisymm (hPQ _ ha) (hPQ _ hb)

theorem isLeast_unique (h : Ordered P) {v w : Value} (hv : IsLeast P v) (hw : IsLeast P w) :
    v = w :=
  h.antisymm hv.1 hw.1 (hv.2 w hw.1) (hw.2 v hv.1)

theorem pairwise_mergeSort (h : Ordered (· ∈ vs)) : (vs.mergeSort le).Pairwise (le · · = true) := by
  -- the order is total on the members only, so they are sorted as such
  let members := vs.attach.mergeSort fun a b => le a.1 b.1
  have hmembers : members.map Subtype.val = vs.mergeSort le :=
    (List.map_mergeSort (s := le) fun _ _ _ _ => rfl).trans (by rw [List.attach_map_subtype_val])
  rw [← hmembers, List.pairwise_map]
  refine List.pairwise_mergeSort (fun a b c hab hbc => ?_) (fun a b => ?_) vs.attach
  · exact h.trans a.2 b.2 c.2 hab hbc
  · simpa using h.total a.2 b.2

/-- The least of a list is found, nulls aside. -/
theorem isLeast_least (h : Ordered fun v => v ≠ .null ∧ v ∈ vs) {v : Value} (hv : v ∈ vs)
    (hnull : v ≠ .null) : IsLeast (fun v => v ≠ .null ∧ v ∈ vs) (least vs) := by
  have hmem (w : Value) : w ∈ (vs.filter (· ≠ .null)).mergeSort le ↔ w ≠ .null ∧ w ∈ vs := by
    simp [and_comm]
  have hsorted : ((vs.filter (· ≠ .null)).mergeSort le).Pairwise (le · · = true) :=
    (h.mono fun w hw => by simpa [and_comm] using hw).pairwise_mergeSort
  unfold least
  cases hlist : (vs.filter (· ≠ .null)).mergeSort le with
  | nil =>
    rw [hlist] at hmem
    exact absurd ((hmem v).mpr ⟨hnull, hv⟩) (by simp)
  | cons w ws =>
    rw [hlist] at hmem hsorted
    have hw : w ≠ .null ∧ w ∈ vs := (hmem w).mp (by simp)
    refine ⟨hw, fun x hx => ?_⟩
    rcases List.mem_cons.mp ((hmem x).mpr hx) with rfl | hin
    · rcases h.total hx hx with hle | hle <;> exact hle
    · exact List.rel_of_pairwise_cons hsorted hin

/-- Some value is the least of finitely many. -/
theorem exists_isLeast (h : Ordered P) (hfin : ∀ v, P v → v ≠ .null ∧ v ∈ vs) {v : Value}
    (hv : P v) : ∃ w, IsLeast P w := by
  classical
  have hmem (w : Value) : w ≠ .null ∧ w ∈ vs.filter (fun w => P w) ↔ P w := by
    simp only [List.mem_filter, decide_eq_true_eq]
    exact ⟨fun ⟨_, _, hw⟩ => hw, fun hw => ⟨(hfin w hw).1, (hfin w hw).2, hw⟩⟩
  have hordered : Ordered fun w => w ≠ .null ∧ w ∈ vs.filter (fun w => P w) :=
    h.mono fun w hw => (hmem w).mp hw
  -- a list of the values has a least one, which is the least of them all
  have hleast := hordered.isLeast_least ((hmem v).mpr hv).2 ((hmem v).mpr hv).1
  simp only [hmem] at hleast
  exact ⟨_, hleast⟩

/-- Values that the order tells apart are grouped in the same way, however often and in whatever order
they stand. -/
theorem groups_congr (h : Ordered P) {vs' : List Value} (hmem : ∀ v, v ∈ vs ↔ v ∈ vs')
    (hall : ∀ v ∈ vs, P v) : groups vs = groups vs' := by
  have hall' (v : Value) (hv : v ∈ vs') : P v := hall v ((hmem v).mpr hv)
  have hsorted {vs : List Value} (hall : ∀ v ∈ vs, P v) :
      (groups vs).Pairwise (le · · = true) := by
    refine (h.mono fun v hv => hall v ?_).pairwise_mergeSort
    exact List.mem_eraseDups.mp hv
  refine List.Perm.eq_of_pairwise (fun v w hv hw => ?_) (hsorted hall) (hsorted hall') ?_
  · exact h.antisymm (hall v (mem_groups.mp hv)) (hall' w (mem_groups.mp hw))
  · refine (List.perm_ext_iff_of_nodup (nodup_groups vs) (nodup_groups vs')).mpr fun v => ?_
    rw [mem_groups, mem_groups, hmem]

/-- The same for the least of them. -/
theorem least_congr (h : Ordered P) {vs' : List Value} (hmem : ∀ v, v ∈ vs ↔ v ∈ vs')
    (hall : ∀ v ∈ vs, P v) : least vs = least vs' := by
  have hordered : Ordered fun v => v ≠ null ∧ v ∈ vs := h.mono fun v hv => hall v hv.2
  by_cases hnone : ∀ v ∈ vs, v = null
  · -- without any other value, both are null
    have hleast {vs : List Value} (hnone : ∀ v ∈ vs, v = null) : least vs = null := by
      have hnil : vs.filter (· ≠ null) = [] :=
        List.filter_eq_nil_iff.mpr fun v hv => by simp [hnone v hv]
      rw [least, hnil, List.mergeSort_nil]
      rfl
    rw [hleast hnone, hleast fun v hv => hnone v ((hmem v).mpr hv)]
  · simp only [not_forall] at hnone
    obtain ⟨v, hv, hnull⟩ := hnone
    have hv' : IsLeast (fun v => v ≠ null ∧ v ∈ vs) (least vs') := by
      simp only [hmem] at hordered ⊢
      exact hordered.isLeast_least ((hmem v).mp hv) hnull
    exact hordered.isLeast_unique (hordered.isLeast_least hv hnull) hv'

end Ordered

end Value

/-! ## Forms of one number -/

namespace Exact

/-- A double without a fraction is that integer. -/
theorem toRat_of_whole {negative : Bool} {mantissa : Nat} {exponent : Int} {size : Nat}
    (h : (if 0 ≤ exponent then some (mantissa <<< exponent.toNat)
      else if mantissa % (1 <<< (-exponent).toNat) = 0 then
        some (mantissa >>> (-exponent).toNat)
      else none) = some size) :
    toRat negative mantissa exponent = ((if negative then -(size : Int) else size : Int) : Rat) := by
  have hsize : (if 0 ≤ exponent then ((mantissa <<< exponent.toNat : Nat) : Rat)
      else mkRat mantissa (1 <<< (-exponent).toNat)) = size := by
    by_cases hexponent : 0 ≤ exponent
    · rw [if_pos hexponent] at h ⊢
      rw [Option.some.inj h]
    · rw [if_neg hexponent] at h ⊢
      rw [Option.ite_none_right_eq_some] at h
      obtain ⟨hdvd, hsize⟩ := h
      rw [← Option.some.inj hsize, Nat.shiftRight_eq_div_pow, Rat.mkRat_eq_div]
      simp only [Nat.one_shiftLeft] at hdvd ⊢
      rw [Nat.cast_div (Nat.dvd_of_mod_eq_zero hdvd) (by simp)]
      simp
  unfold toRat
  rw [hsize]
  cases negative <;> simp

end Exact

namespace Number

/-- An integer stands for what the double does from which it is made. -/
theorem magnitude?_of_wholeOf? {x : Float} {n : Int} (h : wholeOf? x = some n) :
    (real x).magnitude? = some (.at n) := by
  unfold wholeOf? at h
  unfold magnitude?
  cases hx : Exact.ofFloat x with
  | notANumber => simp [hx] at h
  | infinite negative => simp [hx] at h
  | finite negative mantissa exponent =>
    simp only [hx] at h ⊢
    obtain ⟨_, hwhole, rfl⟩ := Option.map_eq_some_iff.mp h
    obtain ⟨size, hsize, hcast⟩ := Option.bind_eq_some_iff.mp hwhole
    obtain rfl := Option.some.inj hcast
    rw [Exact.toRat_of_whole hsize]

theorem magnitude?_canonical (n : Number) : n.canonical.magnitude? = n.magnitude? := by
  cases n with
  | int n => rfl
  | real x =>
    cases hx : wholeOf? x with
    | none => simp only [canonical, ofFloat, hx]
    | some n =>
      simp only [canonical, ofFloat, hx]
      split
      · exact (magnitude?_of_wholeOf? hx).symm
      · rfl

/-- What is no number is in its only form. -/
theorem canonical_eq_self {n : Number} (h : n.magnitude? = none) : n.canonical = n := by
  cases n with
  | int n => rfl
  | real x =>
    cases hx : wholeOf? x with
    | none => simp only [canonical, ofFloat, hx]
    | some n => simp [magnitude?_of_wholeOf? hx] at h

/-- Forms of one number are alike in the order. -/
theorem le_of_canonical_eq {a b : Number} (h : a.canonical = b.canonical) :
    a = b ∨ a.le b = true := by
  have hmagnitude : a.magnitude? = b.magnitude? := by
    rw [← magnitude?_canonical a, h, magnitude?_canonical]
  cases ha : a.magnitude? with
  | none =>
    rw [canonical_eq_self ha, canonical_eq_self (hmagnitude ▸ ha)] at h
    exact .inl h
  | some p =>
    have hp : p.le p = true := by cases p <;> simp [Magnitude.le]
    cases a with
    | int m =>
      cases b with
      | int n => exact .inl h
      | real y => simp [Number.le, ← hmagnitude, ha, hp]
    | real x => simp [Number.le, ← hmagnitude, ha, hp]

end Number

/-- Equal values that the order tells apart are in the same form. -/
theorem Value.Ordered.eq_of_canonical_eq {P : Value → Prop} (h : Ordered P) {v w : Value} (hv : P v)
    (hw : P w) (heq : v.canonical = w.canonical) : v = w := by
  cases v with
  | null => cases w <;> simp_all [canonical]
  | text s => cases w <;> simp_all [canonical]
  | num m =>
    cases w with
    | null => simp [canonical] at heq
    | text s => simp [canonical] at heq
    | num n =>
      have hmn : m.canonical = n.canonical := by simpa [canonical] using heq
      rcases Number.le_of_canonical_eq hmn with rfl | hle
      · rfl
      rcases Number.le_of_canonical_eq hmn.symm with rfl | hge
      · rfl
      exact h.antisymm hv hw hle hge

end Provenance
