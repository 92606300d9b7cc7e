-- SUMMARY: Walks, layers by distance, and distances between sets of vertices.
import Mathlib.Data.ENat.Lattice
import Mathlib.Data.List.Perm.Subperm

/-!
# Walks and distances

A walk takes steps one after another. `Within step S n v` says that some walk of at most `n` steps
leads from a vertex of `S` to `v`, and `At step S n v` that `n` is the least such number. Searches
go layer by layer, so they are described by `At`; what they find is stated with `distanceFrom` and
`distanceTo`, which are infinite where there is no walk.
-/
namespace Provenance

variable {α : Type} {step step' : α → α → Prop} {S S' : α → Prop}

/-- A walk of a number of steps from one vertex to another. -/
inductive Walk (step : α → α → Prop) : Nat → α → α → Prop where
  | nil (v : α) : Walk step 0 v v
  | cons {n : Nat} {u v w : α} : step u v → Walk step n v w → Walk step (n + 1) u w

namespace Walk

theorem eq_of_zero {u v : α} (h : Walk step 0 u v) : u = v := by
  cases h
  rfl

theorem append {m n : Nat} {u v w : α} (h : Walk step m u v) (h' : Walk step n v w) :
    Walk step (m + n) u w := by
  induction h with
  | nil => simpa using h'
  | cons hs _ ih => exact Nat.add_right_comm _ _ _ ▸ .cons hs (ih h')

theorem snoc {n : Nat} {u v w : α} (h : Walk step n u v) (hs : step v w) : Walk step (n + 1) u w :=
  h.append (.cons hs (.nil w))

/-- The last step of a walk. -/
theorem exists_snoc {n : Nat} {u w : α} (h : Walk step (n + 1) u w) :
    ∃ v, Walk step n u v ∧ step v w := by
  induction n generalizing u with
  | zero =>
    cases h with
    | cons hs hw => exact ⟨u, .nil u, hw.eq_of_zero ▸ hs⟩
  | succ n ih =>
    cases h with
    | cons hs hw =>
      obtain ⟨v, hv, hl⟩ := ih hw
      exact ⟨v, .cons hs hv, hl⟩

theorem reverse (h : ∀ u v, step u v → step' v u) {n : Nat} {u v : α} (hw : Walk step n u v) :
    Walk step' n v u := by
  induction hw with
  | nil v => exact .nil v
  | cons hs _ ih => exact ih.snoc (h _ _ hs)

/-- A walk that begins where a property holds, if all steps from there keep it. -/
theorem map_of_inv {p : α → Prop} (hstep : ∀ u v, p u → step u v → step' u v ∧ p v) {n : Nat}
    {u v : α} (hu : p u) (hw : Walk step n u v) : Walk step' n u v := by
  induction hw with
  | nil v => exact .nil v
  | cons hs _ ih =>
    obtain ⟨hs', hv⟩ := hstep _ _ hu hs
    exact .cons hs' (ih hv)

end Walk

/-! ## Sets of vertices by distance -/

def Within (step : α → α → Prop) (S : α → Prop) (n : Nat) (v : α) : Prop :=
  ∃ m ≤ n, ∃ u, S u ∧ Walk step m u v

/-- The vertices that are reached in `n` steps and not in fewer. -/
def At (step : α → α → Prop) (S : α → Prop) (n : Nat) (v : α) : Prop :=
  Within step S n v ∧ ∀ m < n, ¬ Within step S m v

namespace Within

theorem mono {m n : Nat} {v : α} (hmn : m ≤ n) (h : Within step S m v) : Within step S n v := by
  obtain ⟨k, hk, hw⟩ := h
  exact ⟨k, hk.trans hmn, hw⟩

theorem of_subset {n : Nat} {v : α} (hS : ∀ v, S v → S' v) (h : Within step S n v) :
    Within step S' n v := by
  obtain ⟨m, hm, u, hu, hw⟩ := h
  exact ⟨m, hm, u, hS u hu, hw⟩

theorem zero_iff {v : α} : Within step S 0 v ↔ S v := by
  constructor
  · rintro ⟨m, hm, u, hu, hw⟩
    obtain rfl := Nat.le_zero.mp hm
    exact hw.eq_of_zero ▸ hu
  · exact fun h => ⟨0, le_rfl, v, h, .nil v⟩

theorem snoc {n : Nat} {u v : α} (h : Within step S n u) (hs : step u v) :
    Within step S (n + 1) v := by
  obtain ⟨m, hm, s, hS, hw⟩ := h
  exact ⟨m + 1, by omega, s, hS, hw.snoc hs⟩

/-- The vertices within a number of steps, each with the last step that led to it. -/
theorem succ_iff {n : Nat} {v : α} :
    Within step S (n + 1) v ↔ S v ∨ ∃ u, Within step S n u ∧ step u v := by
  constructor
  · rintro ⟨m, hm, s, hS, hw⟩
    cases m with
    | zero => exact .inl (hw.eq_of_zero ▸ hS)
    | succ m =>
      obtain ⟨u, hu, hs⟩ := hw.exists_snoc
      exact .inr ⟨u, ⟨m, by omega, s, hS, hu⟩, hs⟩
  · rintro (hS | ⟨u, hu, hs⟩)
    · exact (zero_iff.mpr hS).mono (Nat.zero_le _)
    · exact hu.snoc hs

/-- Without a step it does not matter what the steps are. -/
theorem congr {n : Nat} {v : α} (h : n ≠ 0 → ∀ u v, step u v ↔ step' u v) :
    Within step S n v ↔ Within step' S n v := by
  by_cases hn : n = 0
  · subst hn
    rw [zero_iff, zero_iff]
  · have : step = step' := by
      funext u v
      exact propext (h hn u v)
    rw [this]

/-- A property of the starts that every step keeps. -/
theorem induct {p : α → Prop} (hS : ∀ v, S v → p v) (hs : ∀ u v, step u v → p v) {n : Nat} {v : α}
    (h : Within step S n v) : p v := by
  cases n with
  | zero => exact hS v (zero_iff.mp h)
  | succ n =>
    obtain hv | ⟨u, _, hu⟩ := succ_iff.mp h
    · exact hS v hv
    · exact hs u v hu

/-- Walks from images are the images of walks, if the steps are. -/
theorem image_iff {β : Type} {f : α → β} {after : β → β → Prop} {T : β → Prop}
    (hstep : ∀ u w, after (f u) w ↔ ∃ v, step u v ∧ f v = w) (hS : ∀ w, T w ↔ ∃ v, S v ∧ f v = w)
    {n : Nat} {w : β} : Within after T n w ↔ ∃ v, Within step S n v ∧ f v = w := by
  induction n generalizing w with
  | zero => simp only [zero_iff, hS]
  | succ n ih =>
    simp only [succ_iff, hS, ih]
    constructor
    · rintro (⟨v, hv, rfl⟩ | ⟨_, ⟨u, hu, rfl⟩, hafter⟩)
      · exact ⟨v, .inl hv, rfl⟩
      · obtain ⟨v, hs, rfl⟩ := (hstep u w).mp hafter
        exact ⟨v, .inr ⟨u, hu, hs⟩, rfl⟩
    · rintro ⟨v, hv | ⟨u, hu, hs⟩, rfl⟩
      · exact .inl ⟨v, hv, rfl⟩
      · exact .inr ⟨f u, ⟨u, hu, rfl⟩, (hstep u _).mpr ⟨v, hs, rfl⟩⟩

theorem exists_at {n : Nat} {v : α} (h : Within step S n v) : ∃ m ≤ n, At step S m v := by
  -- strong induction: the number is the least, or there is a smaller one
  induction n using Nat.strongRecOn with
  | ind n ih =>
    by_cases hless : ∃ m < n, Within step S m v
    · obtain ⟨m, hm, hv⟩ := hless
      obtain ⟨k, hk, hat⟩ := ih m hm hv
      exact ⟨k, by omega, hat⟩
    · exact ⟨n, le_rfl, h, fun m hm hv => hless ⟨m, hm, hv⟩⟩

theorem iff_exists_at {n : Nat} {v : α} : Within step S n v ↔ ∃ m ≤ n, At step S m v :=
  ⟨exists_at, fun ⟨_, hm, h⟩ => h.1.mono hm⟩

end Within

namespace At

theorem zero_iff {v : α} : At step S 0 v ↔ S v := by
  simp [At, Within.zero_iff]

theorem not_of_lt {m n : Nat} {v : α} (h : At step S n v) (hm : m < n) : ¬ At step S m v :=
  fun hv => h.2 m hm hv.1

theorem unique {m n : Nat} {v : α} (hm : At step S m v) (hn : At step S n v) : m = n := by
  by_contra hne
  obtain h | h := Nat.lt_or_gt_of_ne hne
  · exact hn.not_of_lt h hm
  · exact hm.not_of_lt h hn

theorem le_of_within {m n : Nat} {v : α} (h : At step S n v) (hv : Within step S m v) : n ≤ m := by
  by_contra hlt
  exact h.2 m (by omega) hv

/-- A vertex of a layer is led to from the layer before. -/
theorem exists_pred {n : Nat} {v : α} (h : At step S (n + 1) v) :
    ∃ u, At step S n u ∧ step u v := by
  obtain hS | ⟨u, hu, hs⟩ := Within.succ_iff.mp h.1
  · exact absurd (Within.zero_iff.mpr hS) (h.2 0 (by omega))
  · refine ⟨u, ⟨hu, fun m hm hlt => ?_⟩, hs⟩
    exact h.2 (m + 1) (by omega) (hlt.snoc hs)

/-- The vertices on the way to a layer are all different, one for each layer between. -/
theorem exists_way {n : Nat} {v : α} (h : At step S n v) : ∃ way : List α, way.Nodup ∧
    way.length = n ∧ ∀ w ∈ way, (∃ u, step u w) ∧ ∃ k ≤ n, At step S k w := by
  induction n generalizing v with
  | zero => exact ⟨[], List.nodup_nil, rfl, by simp⟩
  | succ n ih =>
    obtain ⟨u, hu, hs⟩ := h.exists_pred
    obtain ⟨way, hnodup, hlength, hway⟩ := ih hu
    have hfirst : v ∉ way := by
      intro hv
      obtain ⟨k, hk, hat⟩ := (hway v hv).2
      have := h.unique hat
      omega
    refine ⟨v :: way, List.nodup_cons.mpr ⟨hfirst, hnodup⟩, by simp [hlength], fun w hw => ?_⟩
    obtain rfl | hw := List.mem_cons.mp hw
    · exact ⟨⟨u, hs⟩, n + 1, le_rfl, h⟩
    · obtain ⟨hs, k, hk, hat⟩ := hway w hw
      exact ⟨hs, k, by omega, hat⟩

/-- No layer is farther away than there are vertices to step to. -/
theorem le_length {n : Nat} {v : α} (h : At step S n v) (ends : List α)
    (hends : ∀ u w, step u w → w ∈ ends) : n ≤ ends.length := by
  obtain ⟨way, hnodup, rfl, hway⟩ := h.exists_way
  refine (hnodup.subperm fun w hw => ?_).length_le
  obtain ⟨⟨u, hs⟩, _⟩ := hway w hw
  exact hends u w hs

/-- A step from a layer leads to the next one, or back. -/
theorem succ_of_step {n : Nat} {u v : α} (hu : At step S n u) (hs : step u v)
    (hv : ¬ Within step S n v) : At step S (n + 1) v :=
  ⟨hu.1.snoc hs, fun _ hm h => hv (h.mono (by omega))⟩

end At

/-! ## Distances -/

/-- The least number with a property, infinite if there is none. -/
noncomputable def leastSuch (p : ℕ → Prop) : ℕ∞ := ⨅ n : { n : ℕ // p n }, (n : ℕ∞)

theorem leastSuch_le_iff {p : ℕ → Prop} {n : ℕ} : leastSuch p ≤ n ↔ ∃ m ≤ n, p m := by
  constructor
  · intro h
    -- an infimum over nothing would be infinite
    have : Nonempty { m : ℕ // p m } :=
      ENat.iInf_natCast_lt_top.mp (h.trans_lt (ENat.natCast_lt_top n))
    obtain ⟨m, hm⟩ := ENat.exists_eq_iInf fun m : { m : ℕ // p m } => (m : ℕ∞)
    exact ⟨m, Nat.cast_le.mp (hm.trans_le h), m.2⟩
  · rintro ⟨m, hm, hp⟩
    exact (iInf_le _ ⟨m, hp⟩).trans (Nat.cast_le.mpr hm)

/-- The least number of steps of a walk that leads from a set to a vertex. -/
noncomputable def distanceFrom (step : α → α → Prop) (S : α → Prop) (v : α) : ℕ∞ :=
  leastSuch fun n => ∃ u, S u ∧ Walk step n u v

/-- The least number of steps of a walk that leads from a vertex to a set. -/
noncomputable def distanceTo (step : α → α → Prop) (S : α → Prop) (v : α) : ℕ∞ :=
  leastSuch fun n => ∃ u, S u ∧ Walk step n v u

theorem distanceFrom_le_iff {v : α} {n : ℕ} : distanceFrom step S v ≤ n ↔ Within step S n v :=
  leastSuch_le_iff

/-- Walks that lead to a set are walks from it against the steps. -/
theorem distanceTo_eq_distanceFrom (h : ∀ u v, step' u v ↔ step v u) (v : α) :
    distanceTo step S v = distanceFrom step' S v := by
  have hw (n : ℕ) (u : α) : Walk step n v u ↔ Walk step' n u v :=
    ⟨Walk.reverse fun a b hs => (h b a).mpr hs, Walk.reverse fun a b hs => (h a b).mp hs⟩
  simp only [distanceTo, distanceFrom, hw]

/-- A budget for both distances is shared out between them. -/
theorem add_le_natCast_iff {a b : ℕ∞} {n : ℕ} :
    a + b ≤ n ↔ ∃ i j : ℕ, i + j ≤ n ∧ a ≤ i ∧ b ≤ j := by
  constructor
  · intro h
    -- both are finite, since their sum is
    obtain ⟨ha, hb⟩ := ENat.add_lt_top.mp (h.trans_lt (ENat.natCast_lt_top n))
    lift a to ℕ using ha.ne
    lift b to ℕ using hb.ne
    exact ⟨a, b, by exact_mod_cast h, le_rfl, le_rfl⟩
  · rintro ⟨i, j, hn, ha, hb⟩
    calc a + b ≤ (i : ℕ∞) + j := add_le_add ha hb
      _ = (i + j : ℕ) := (Nat.cast_add i j).symm
      _ ≤ n := Nat.cast_le.mpr hn

theorem add_add_le_natCast_iff {a b : ℕ∞} {k n : ℕ} :
    a + b + k ≤ n ↔ ∃ i j : ℕ, i + j + k ≤ n ∧ a ≤ i ∧ b ≤ j := by
  rw [add_le_natCast_iff]
  constructor
  · intro h
    obtain ⟨x, k', hx, hab, hk⟩ := h
    obtain ⟨i, j, hij, ha, hb⟩ := add_le_natCast_iff.mp hab
    have hk : k ≤ k' := Nat.cast_le.mp hk
    exact ⟨i, j, by omega, ha, hb⟩
  · intro h
    obtain ⟨i, j, hn, ha, hb⟩ := h
    exact ⟨i + j, k, hn, add_le_natCast_iff.mpr ⟨i, j, le_rfl, ha, hb⟩, le_rfl⟩

end Provenance
