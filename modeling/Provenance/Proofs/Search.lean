-- SUMMARY: Searches by layers: the loop that they share, and the layers of a frontier.
import Provenance.Proofs.Walk
import Provenance.Walk.Budget

/-!
# Searches by layers

All searches take step after step, note something down at each, and stop early where a step leads
nowhere; `loop` is what they have in common. Most of them advance a frontier, and differ in where
they may go next. The layers of a search are the vertices that it reaches first at each step. A
search that keeps to given layers reaches exactly their vertices, and stopping at the first empty
layer loses nothing.
-/
namespace Provenance

/-! ## Loops that stop early -/

/-- At most `n` steps, the next of which has the number `i`. What a step notes is read off before it
is taken. -/
def loop {σ β : Type} (next : Nat → σ → σ) (idle : σ → Bool) (notes : Nat → σ → List β) :
    Nat → Nat → σ → List β → σ × List β
  | 0, _, s, noted => (s, noted)
  | n + 1, i, s, noted =>
    if idle (next i s) then (next i s, noted ++ notes i s)
    else loop next idle notes n (i + 1) (next i s) (noted ++ notes i s)

/-- An invariant that counts the steps. Where a step would lead nowhere it may be left out. -/
structure Steady {σ : Type} (next : Nat → σ → σ) (idle : σ → Bool) (I : Nat → σ → Prop) : Prop where
  step : ∀ {i s}, I i s → I (i + 1) (next i s)
  rest : ∀ {i s}, I i s → idle s = true → I (i + 1) s

namespace Steady

variable {σ β : Type} {next : Nat → σ → σ} {idle : σ → Bool} {notes : Nat → σ → List β}
  {I : Nat → σ → Prop} {i : Nat} {s : σ}

theorem of_idle (h : Steady next idle I) (hs : I i s) (hidle : idle s = true) (k : Nat) :
    I (i + k) s := by
  induction k with
  | zero => exact hs
  | succ k ih => exact h.rest ih hidle

/-- The invariant holds at the end as if all steps had been taken. -/
theorem loop_fst (h : Steady next idle I) (hs : I i s) (n : Nat) (noted : List β) :
    I (i + n) (loop next idle notes n i s noted).1 := by
  induction n generalizing i s noted with
  | zero => exact hs
  | succ n ih =>
    have hcount : i + (n + 1) = i + 1 + n := by omega
    rw [hcount]
    unfold loop
    split
    · -- the steps left out would not have changed anything
      next hidle => exact h.of_idle (h.step hs) hidle n
    · exact ih (h.step hs) _

/-- The notes at the end are those of all steps, if there is nothing to note where a step would lead
nowhere. -/
theorem mem_loop_snd (h : Steady next idle I) {N : Nat → β → Prop}
    (hnotes : ∀ {i s}, I i s → ∀ x, x ∈ notes i s ↔ N i x)
    (hnone : ∀ {i s}, I i s → idle s = true → ∀ x, ¬ N i x) (hs : I i s) (n : Nat) (noted : List β)
    (x : β) :
    x ∈ (loop next idle notes n i s noted).2 ↔ x ∈ noted ∨ ∃ j, i ≤ j ∧ j < i + n ∧ N j x := by
  induction n generalizing i s noted with
  | zero =>
    simp only [loop, Nat.add_zero, iff_self_or]
    exact fun ⟨j, hj, hlt, _⟩ => absurd hlt (by omega)
  | succ n ih =>
    -- the steps that are left, split into the next one and those after it
    have hsplit : (∃ j, i ≤ j ∧ j < i + (n + 1) ∧ N j x) ↔
        N i x ∨ ∃ j, i + 1 ≤ j ∧ j < i + 1 + n ∧ N j x := by
      constructor
      · intro h
        obtain ⟨j, hj, hlt, hx⟩ := h
        rcases Nat.eq_or_lt_of_le hj with rfl | hj
        · exact .inl hx
        · exact .inr ⟨j, hj, by omega, hx⟩
      · intro h
        rcases h with hx | ⟨j, hj, hlt, hx⟩
        · exact ⟨i, le_rfl, by omega, hx⟩
        · exact ⟨j, by omega, by omega, hx⟩
    rw [hsplit, ← or_assoc]
    unfold loop
    split
    · next hidle =>
      -- the steps left out would have had nothing to note
      have hlate : ¬ ∃ j, i + 1 ≤ j ∧ j < i + 1 + n ∧ N j x := by
        intro hlate
        obtain ⟨j, hj, _, hx⟩ := hlate
        obtain ⟨k, rfl⟩ := Nat.exists_eq_add_of_le hj
        exact hnone (h.of_idle (h.step hs) hidle k) hidle x hx
      rw [List.mem_append, hnotes hs, or_iff_left hlate]
    · rw [ih (h.step hs), List.mem_append, hnotes hs]

end Steady

/-- What every step keeps holds at the end, and what it notes is noted at the end. -/
theorem loop_keeps {σ β : Type} {next : Nat → σ → σ} {idle : σ → Bool} {notes : Nat → σ → List β}
    {I : σ → Prop} {N : β → Prop} (hnext : ∀ i s, I s → I (next i s))
    (hnotes : ∀ i s, I s → ∀ x ∈ notes i s, N x) {s : σ} {noted : List β} (hs : I s)
    (hnoted : ∀ x ∈ noted, N x) (n i : Nat) :
    I (loop next idle notes n i s noted).1 ∧ ∀ x ∈ (loop next idle notes n i s noted).2, N x := by
  induction n generalizing i s noted with
  | zero => exact ⟨hs, hnoted⟩
  | succ n ih =>
    have hnoted' : ∀ x ∈ noted ++ notes i s, N x := by
      intro x hx
      rcases List.mem_append.mp hx with hx | hx
      · exact hnoted x hx
      · exact hnotes i s hs x hx
    unfold loop
    split
    · exact ⟨hnext i s hs, hnoted'⟩
    · exact ih (hnext i s hs) hnoted' (i + 1)

/-- What is read off the notes of a loop may be noted at once. -/
theorem flatMap_loop {σ β γ : Type} (g : β → List γ) (next : Nat → σ → σ) (idle : σ → Bool)
    (notes : Nat → σ → List β) (n i : Nat) (s : σ) (noted : List β) :
    (loop next idle notes n i s noted).2.flatMap g =
      (loop next idle (fun i s => (notes i s).flatMap g) n i s (noted.flatMap g)).2 := by
  induction n generalizing i s noted with
  | zero => rfl
  | succ n ih =>
    simp only [loop]
    split
    · exact List.flatMap_append
    · rw [ih, List.flatMap_append]

/-- Two loops whose states and whose notes stay alike take equally many steps. -/
theorem loop_alike {σ τ β γ : Type} {next : Nat → σ → σ} {next' : Nat → τ → τ} {idle : σ → Bool}
    {idle' : τ → Bool} {notes : Nat → σ → List β} {notes' : Nat → τ → List γ} {A : σ → τ → Prop}
    {B : List β → List γ → Prop} (hnext : ∀ i {s t}, A s t → A (next i s) (next' i t))
    (hidle : ∀ {s t}, A s t → idle s = idle' t)
    (hnotes : ∀ i {s t xs ys}, A s t → B xs ys → B (xs ++ notes i s) (ys ++ notes' i t))
    {s : σ} {t : τ} {noted : List β} {noted' : List γ} (hs : A s t) (hnoted : B noted noted')
    (n i : Nat) :
    A (loop next idle notes n i s noted).1 (loop next' idle' notes' n i t noted').1 ∧
      B (loop next idle notes n i s noted).2 (loop next' idle' notes' n i t noted').2 := by
  induction n generalizing i s t noted noted' with
  | zero => exact ⟨hs, hnoted⟩
  | succ n ih =>
    unfold loop
    rw [hidle (hnext i hs)]
    split
    · exact ⟨hnext i hs, hnotes i hs hnoted⟩
    · exact ih (hnext i hs) (hnotes i hs hnoted) (i + 1)

/-! ## Steps along edges -/

/-- A step along a way takes an edge between two vertices; an end that is null is no vertex. -/
def Leads (E : Arc → Prop) (way : Way) (u v : Value) : Prop :=
  ∃ a, E a ∧ a.near way = u ∧ a.far way = v ∧ u ≠ .null ∧ v ≠ .null

/-- A step along any of several ways. -/
def LeadsAny (E : Arc → Prop) (ways : List Way) (u v : Value) : Prop :=
  ∃ way ∈ ways, Leads E way u v

theorem Leads.ne_null {E : Arc → Prop} {way : Way} {u v : Value} (h : Leads E way u v) :
    v ≠ .null := by
  obtain ⟨_, _, _, _, _, hv⟩ := h
  exact hv

/-- Descendants are reached against the steps that reach ancestors. -/
theorem leads_descendant_iff {E : Arc → Prop} {u v : Value} :
    Leads E .descendant u v ↔ Leads E .ancestor v u := by
  constructor <;> exact fun ⟨a, ha, hn, hf, hu, hv⟩ => ⟨a, ha, hf, hn, hv, hu⟩

@[simp] theorem leadsAny_singleton {E : Arc → Prop} {way : Way} :
    LeadsAny E [way] = Leads E way := by
  funext u v
  simp [LeadsAny]

theorem LeadsAny.ne_null {E : Arc → Prop} {ways : List Way} {u v : Value}
    (h : LeadsAny E ways u v) : v ≠ .null := by
  obtain ⟨_, _, hs⟩ := h
  exact hs.ne_null

/-- A walk between vertices does not lead to a null. -/
theorem Within.ne_null {step : Value → Value → Prop} (hstep : ∀ u v, step u v → v ≠ .null)
    {S : Value → Prop} (hS : ¬ S .null) {n : Nat} {v : Value} (h : Within step S n v) :
    v ≠ .null := by
  refine h.induct (p := (· ≠ .null)) ?_ hstep
  rintro v hv rfl
  exact hS hv

/-- The vertices that begin a second search: the sources among those that a first one reached. -/
def SourcesAmong (among : List Value → List Value) (S vs : List Value) : Prop :=
  ∀ v, v ∈ among vs ↔ v ∈ S ∧ v ∈ vs

namespace Frontier

/-! ## Sweeps -/

/-- A loop that advances a frontier, until there is no vertex to go on from. -/
def sweep {β : Type} (arrivals : Nat → Frontier → List Value) (notes : Nat → Frontier → List β) :
    Nat → Nat → Frontier → List β → Frontier × List β :=
  loop (fun i f => f.advance (arrivals i f)) (·.current.isEmpty) notes

/-- Where the current vertices lead along several ways. -/
def reach (ways : List Way) (arcs : List Arc) (f : Frontier) : List Value :=
  ways.flatMap fun way => (f.exits way arcs).map (·.far way)

theorem explore_eq_sweep (way : Way) (arcs : List Arc) (n i : Nat) (f : Frontier)
    (crossed : List Value) :
    explore way arcs n f crossed =
      sweep (fun _ f => f.reach [way] arcs) (fun _ f => (f.exits way arcs).map (·.id)) n i f
        crossed := by
  induction n generalizing i f crossed with
  | zero => rfl
  | succ n ih =>
    simp only [explore, step, ih (i + 1), reach, List.flatMap_singleton]
    rfl

theorem record_eq_sweep (ways : List Way) (arcs : List Arc) (n i : Nat) (f : Frontier)
    (hops : List Hop) :
    record ways arcs n (i + 1) f hops =
      sweep (fun _ f => f.reach ways arcs)
        (fun i f => ways.flatMap fun way =>
          (f.exits way arcs).map fun a => ⟨a.child, a.parent, i + 1⟩) n i f hops := by
  induction n generalizing i f hops with
  | zero => rfl
  | succ n ih =>
    simp only [record, ih (i + 1)]
    rfl

theorem retrace_eq_sweep (ways : List Way) (hops : List Hop) (budget n i : Nat) (f : Frontier)
    (stages : List Stage) :
    retrace ways hops budget n i f stages =
      sweep (fun i f => f.arrivals ways hops budget i)
        (fun i f => [⟨f.current, f.arrivals ways hops budget i⟩]) n i f stages := by
  induction n generalizing i f stages with
  | zero => rfl
  | succ n ih =>
    simp only [retrace, ih (i + 1)]
    rfl

/-! ## Layers -/

/-- The frontier after step `i` of a search with the layers `C`. -/
structure Shows (f : Frontier) (C : Nat → Value → Prop) (i : Nat) : Prop where
  current : ∀ v, v ∈ f.current ↔ C i v
  reached : ∀ v, v ∈ f.reached ↔ ∃ j ≤ i, C j v

/-- A search keeps to layers: no vertex is in two of them, and the vertices that are new at a step
are those of the next layer. -/
structure Layers (arrivals : Nat → Frontier → List Value) (C : Nat → Value → Prop) : Prop where
  ne_null : ∀ {i v}, C i v → v ≠ .null
  unique : ∀ {i j v}, C i v → C j v → i = j
  arrives : ∀ {i f v}, f.Shows C i → v ≠ .null → v ∉ f.reached →
    (v ∈ arrivals i f ↔ C (i + 1) v)
  idle : ∀ {i f}, f.current = [] → arrivals i f = []

theorem shows_start {C : Nat → Value → Prop} {vs : List Value} (h : ∀ v, v ∈ vs ↔ C 0 v) :
    (start vs).Shows C 0 := by
  constructor <;> intro v <;> simp [start, h]

theorem mem_current_advance {f : Frontier} {arrived : List Value} {v : Value}
    (hnull : .null ∉ f.reached) (hnone : f.reached = [] → arrived = []) :
    v ∈ (f.advance arrived).current ↔ v ∈ arrived ∧ v ≠ .null ∧ v ∉ f.reached := by
  simp only [advance, Value.mem_groups, List.mem_filter, Value.absentFrom_iff]
  constructor
  · rintro ⟨hv, hr | ⟨hn, _, hr⟩⟩
    · simp [hnone hr] at hv
    · exact ⟨hv, hn, hr⟩
  · rintro ⟨hv, hn, hr⟩
    exact ⟨hv, .inr ⟨hn, hnull, hr⟩⟩

/-- What is reached next was not reached before. -/
theorem nodup_reached_advance {f : Frontier} (arrived : List Value) (hf : f.reached.Nodup) :
    (f.advance arrived).reached.Nodup := by
  refine List.nodup_append'.mpr ⟨hf, Value.nodup_groups _, fun v hv hin => ?_⟩
  have habsent := (List.mem_filter.mp (Value.mem_groups.mp hin)).2
  rcases Value.absentFrom_iff.mp habsent with hnone | ⟨_, _, hnew⟩
  · simp [hnone] at hv
  · exact hnew hv

namespace Shows

variable {arrivals : Nat → Frontier → List Value} {C : Nat → Value → Prop} {f : Frontier} {i : Nat}

theorem not_mem_reached (hf : f.Shows C i) (h : Layers arrivals C) {j : Nat} {v : Value}
    (hv : C j v) (hj : i < j) : v ∉ f.reached := by
  rw [hf.reached]
  rintro ⟨k, hk, hvk⟩
  exact absurd (h.unique hv hvk) (by omega)

theorem advance (hf : f.Shows C i) (h : Layers arrivals C) :
    (f.advance (arrivals i f)).Shows C (i + 1) := by
  have hnull : Value.null ∉ f.reached := by
    rw [hf.reached]
    exact fun ⟨_, _, hn⟩ => h.ne_null hn rfl
  -- with nothing reached there is nothing current either
  have hnone (hr : f.reached = []) : arrivals i f = [] := by
    apply h.idle
    rw [List.eq_nil_iff_forall_not_mem]
    intro v hv
    have : v ∈ f.reached := (hf.reached v).mpr ⟨i, le_rfl, (hf.current v).mp hv⟩
    simp [hr] at this
  have hcurrent (v : Value) : v ∈ (f.advance (arrivals i f)).current ↔ C (i + 1) v := by
    rw [mem_current_advance hnull hnone]
    constructor
    · exact fun ⟨hv, hn, hr⟩ => (h.arrives hf hn hr).mp hv
    · intro hv
      have hr := hf.not_mem_reached h hv (by omega)
      exact ⟨(h.arrives hf (h.ne_null hv) hr).mpr hv, h.ne_null hv, hr⟩
  refine ⟨hcurrent, fun v => ?_⟩
  have : v ∈ (f.advance (arrivals i f)).reached ↔
      v ∈ f.reached ∨ v ∈ (f.advance (arrivals i f)).current := by
    simp [Frontier.advance]
  rw [this, hcurrent, hf.reached]
  constructor
  · rintro (⟨j, hj, hv⟩ | hv)
    · exact ⟨j, by omega, hv⟩
    · exact ⟨i + 1, le_rfl, hv⟩
  · rintro ⟨j, hj, hv⟩
    obtain hj | rfl := Nat.le_succ_iff.mp hj
    · exact .inl ⟨j, hj, hv⟩
    · exact .inr hv

/-- Behind an empty layer the next one is empty, so the frontier stays as it is. -/
theorem of_idle (hf : f.Shows C i) (h : Layers arrivals C) (hnone : f.current = []) :
    f.Shows C (i + 1) := by
  have hempty (v : Value) : ¬ C (i + 1) v := by
    intro hv
    have := (h.arrives hf (h.ne_null hv) (hf.not_mem_reached h hv (by omega))).mpr hv
    simp [h.idle hnone] at this
  constructor <;> intro v
  · simp [hnone, hempty]
  · rw [hf.reached]
    constructor
    · exact fun ⟨j, hj, hv⟩ => ⟨j, by omega, hv⟩
    · intro h
      obtain ⟨j, hj, hv⟩ := h
      rcases Nat.le_succ_iff.mp hj with hj | rfl
      · exact ⟨j, hj, hv⟩
      · exact absurd hv (hempty v)

end Shows

section Sweep

variable {β : Type} {arrivals : Nat → Frontier → List Value} {notes : Nat → Frontier → List β}
  {C : Nat → Value → Prop}

theorem steady_shows (h : Layers arrivals C) :
    Steady (fun i (f : Frontier) => f.advance (arrivals i f)) (fun f => f.current.isEmpty)
      fun i f => f.Shows C i where
  step hf := hf.advance h
  rest hf hidle := hf.of_idle h (List.isEmpty_iff.mp hidle)

/-- A search reaches exactly the vertices of the layers within its number of steps. -/
theorem mem_reached_sweep (h : Layers arrivals C) {n i : Nat} {f : Frontier} (hf : f.Shows C i)
    (noted : List β) (v : Value) :
    v ∈ (sweep arrivals notes n i f noted).1.reached ↔ ∃ j ≤ i + n, C j v :=
  ((steady_shows h).loop_fst hf n noted).reached v

/-- A search notes exactly what its layers give, if an empty layer gives nothing. -/
theorem mem_notes_sweep (h : Layers arrivals C) {N : Nat → β → Prop}
    (hnotes : ∀ {i f}, f.Shows C i → ∀ x, x ∈ notes i f ↔ N i x)
    (hN : ∀ {i x}, N i x → ∃ v, C i v) {n i : Nat} {f : Frontier} (hf : f.Shows C i)
    (noted : List β) (x : β) :
    x ∈ (sweep arrivals notes n i f noted).2 ↔ x ∈ noted ∨ ∃ j, i ≤ j ∧ j < i + n ∧ N j x := by
  refine (steady_shows h).mem_loop_snd hnotes ?_ hf n noted x
  intro i f hf hidle x hx
  obtain ⟨v, hv⟩ := hN hx
  simpa [List.isEmpty_iff.mp hidle] using (hf.current v).mpr hv

/-- All that a search reaches has been arrived at, its start aside. -/
theorem forall_reached_sweep {P : Value → Prop} (harrivals : ∀ i f, ∀ v ∈ arrivals i f, P v)
    {f : Frontier} (hf : ∀ v ∈ f.reached, P v) (n i : Nat) (noted : List β) :
    ∀ v ∈ (sweep arrivals notes n i f noted).1.reached, P v := by
  refine (loop_keeps (I := fun f : Frontier => ∀ v ∈ f.reached, P v)
    (N := fun _ => True) ?_ ?_ hf ?_ n i).1
  · intro i f hf v hv
    rcases List.mem_append.mp hv with hv | hv
    · exact hf v hv
    · exact harrivals i f v (List.mem_filter.mp (Value.mem_groups.mp hv)).1
  · simp
  · simp

/-- A search keeps all that it has reached. -/
theorem mem_reached_sweep_of_mem {f : Frontier} {v : Value} (hv : v ∈ f.reached) (n i : Nat)
    (noted : List β) : v ∈ (sweep arrivals notes n i f noted).1.reached :=
  (loop_keeps (I := fun f : Frontier => v ∈ f.reached) (N := fun _ => True)
    (fun _ _ => List.mem_append_left _) (by simp) hv (by simp) n i).1

/-- No vertex is reached twice. -/
theorem nodup_reached_sweep {f : Frontier} (hf : f.reached.Nodup) (n i : Nat) (noted : List β) :
    (sweep arrivals notes n i f noted).1.reached.Nodup :=
  (loop_keeps (I := fun f : Frontier => f.reached.Nodup) (N := fun _ => True)
    (fun _ _ => nodup_reached_advance _) (by simp) hf (by simp) n i).1

theorem forall_notes_sweep {N : β → Prop} (hnotes : ∀ i f, ∀ x ∈ notes i f, N x) (n i : Nat)
    (f : Frontier) : ∀ x ∈ (sweep arrivals notes n i f []).2, N x :=
  (loop_keeps (I := fun _ => True) (fun _ _ _ => trivial) (fun i f _ => hnotes i f) trivial
    (by simp) n i).2

end Sweep

/-! ## Layers by distance -/

theorem mem_exits {f : Frontier} {way : Way} {arcs : List Arc} {a : Arc} :
    a ∈ f.exits way arcs ↔ a ∈ arcs ∧ a.near way ≠ .null ∧ a.near way ∈ f.current := by
  simp [exits, Value.memberOf_iff]

theorem mem_reach {ways : List Way} {arcs : List Arc} {f : Frontier} {v : Value} :
    v ∈ f.reach ways arcs ↔ ∃ way ∈ ways, ∃ a ∈ arcs,
      a.near way ≠ .null ∧ a.near way ∈ f.current ∧ a.far way = v := by
  simp [reach, mem_exits, and_assoc]

/-- A search over all edges goes by distance from its start. -/
theorem layers_at {ways : List Way} {arcs : List Arc} {S : Value → Prop} (hS : ¬ S .null) :
    Layers (fun _ f => f.reach ways arcs) (At (LeadsAny (· ∈ arcs) ways) S) where
  ne_null h := h.1.ne_null (fun _ _ => LeadsAny.ne_null) hS
  unique := At.unique
  arrives := by
    intro i f v hf hv hnew
    -- a vertex that was not reached is farther than the steps taken
    have hout : ¬ Within (LeadsAny (· ∈ arcs) ways) S i v := by
      rwa [Within.iff_exists_at, ← hf.reached]
    rw [mem_reach]
    constructor
    · rintro ⟨way, hway, a, ha, hn, hcur, rfl⟩
      exact ((hf.current _).mp hcur).succ_of_step ⟨way, hway, a, ha, rfl, rfl, hn, hv⟩ hout
    · intro hat
      obtain ⟨u, hu, way, hway, a, ha, rfl, hfar, hn, _⟩ := hat.exists_pred
      exact ⟨way, hway, a, ha, hn, (hf.current _).mpr hu, hfar⟩
  idle := by
    intro _ f hnone
    rw [List.eq_nil_iff_forall_not_mem]
    intro v hv
    obtain ⟨_, _, _, _, _, hcur, _⟩ := mem_reach.mp hv
    simp [hnone] at hcur

end Frontier
end Provenance
