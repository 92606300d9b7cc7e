-- SUMMARY: The tags of a search back, and the picks of a search forth.
import Provenance.Proofs.Search
import Provenance.Proofs.ValueOrder
import Provenance.Walk.Shortest

/-!
# Searching back with tags and forth by picks

The first search tags a vertex with the destinations nearest to it, or with itself where tags share
the column of ids. The second goes from a vertex, for each tag, to the least parent under that tag
for which the budget is left, if it was not there before.
-/
namespace Provenance.Shortest

variable {merged : Bool} {arcs : List Arc} {D : List Value}

/-! ## Tags -/

/-- The first search meets `v` at step `j` under the tag. -/
def TagAt (merged : Bool) (E : Arc → Prop) (D : Value → Prop) (j : Nat) (v tag : Value) : Prop :=
  At (Leads E .descendant) D j v ∧
    if merged then tag = v else D tag ∧ Walk (Leads E .descendant) j tag v

theorem exists_tagAt (merged : Bool) {E : Arc → Prop} {D : Value → Prop} {j : Nat} {v : Value}
    (h : At (Leads E .descendant) D j v) : ∃ tag, TagAt merged E D j v tag := by
  cases merged with
  | true => exact ⟨v, h, rfl⟩
  | false =>
    obtain ⟨m, hm, d, hd, hw⟩ := h.1
    -- a shorter walk would show that `v` was met before
    obtain rfl : m = j := by
      by_contra hne
      exact h.2 m (by omega) ⟨m, le_rfl, d, hd, hw⟩
    exact ⟨d, h, hd, hw⟩

/-- A vertex has its tags from those met one step before. -/
theorem tagAt_succ_iff {E : Arc → Prop} {D : Value → Prop} {j : Nat} {v tag : Value} :
    TagAt merged E D (j + 1) v tag ↔
      ¬ Within (Leads E .descendant) D j v ∧
        ∃ p tag', TagAt merged E D j p tag' ∧ Leads E .descendant p v ∧
          tag = if merged then v else tag' := by
  constructor
  · intro h
    obtain ⟨hat, htag⟩ := h
    refine ⟨hat.2 j (by omega), ?_⟩
    cases merged with
    | true =>
      obtain ⟨p, hp, hs⟩ := hat.exists_pred
      exact ⟨p, p, ⟨hp, rfl⟩, hs, htag⟩
    | false =>
      obtain ⟨hd, hw⟩ := htag
      -- the walk from the tag is a shortest one, so it is one as far as `p` too
      obtain ⟨p, hwp, hs⟩ := hw.exists_snoc
      have hp : At (Leads E .descendant) D j p :=
        ⟨⟨j, le_rfl, tag, hd, hwp⟩, fun m hm hwm => hat.2 (m + 1) (by omega) (hwm.snoc hs)⟩
      exact ⟨p, tag, ⟨hp, hd, hwp⟩, hs, rfl⟩
  · intro h
    obtain ⟨hnew, p, tag', ⟨hp, htag⟩, hs, rfl⟩ := h
    refine ⟨hp.succ_of_step hs hnew, ?_⟩
    cases merged with
    | true => rfl
    | false => exact ⟨htag.1, htag.2.snoc hs⟩

/-! ## The first search -/

theorem mem_connections {c p : Value} :
    (c, p) ∈ connections arcs ↔ ∃ a ∈ arcs, a.child = c ∧ a.parent = p := by
  simp [connections]

theorem mem_met {current : List Tagged} {t : Tagged} {c p : Value} :
    (t, (c, p)) ∈ met current (connections arcs) ↔
      t ∈ current ∧ t.vertex = p ∧ p ≠ .null ∧ ∃ a ∈ arcs, a.child = c ∧ a.parent = p := by
  simp only [met, List.mem_flatMap, List.mem_map, List.mem_filter, Value.selects_equals_iff]
  constructor
  · intro h
    obtain ⟨t', ht, c', ⟨hc, hn, hp⟩, heq⟩ := h
    obtain ⟨rfl, rfl⟩ : t' = t ∧ c' = (c, p) := by simpa using heq
    obtain rfl : t'.vertex = p := hp
    exact ⟨ht, rfl, hn, mem_connections.mp hc⟩
  · intro h
    obtain ⟨ht, rfl, hn, hc⟩ := h
    exact ⟨t, ht, _, ⟨mem_connections.mpr hc, hn, rfl⟩, rfl⟩

/-- The vertices met by a step of the first search, and all reached after it. -/
def advanceTags (merged : Bool) (arcs : List Arc) (s : List Tagged × List Value) :
    List Tagged × List Value :=
  let arrived := (met s.1 (connections arcs)).map fun m => retag merged m.2.1 m.1.tag
  let current := (arrived.filter (·.vertex.absentFrom s.2)).eraseDups
  (current, s.2 ++ Value.groups (current.map (·.vertex)))

theorem back_eq_loop (n i : Nat) (s : List Tagged × List Value) (hops : List TaggedHop) :
    back merged (connections arcs) n (i + 1) ⟨s.1, s.2, hops⟩ =
      let r := loop (fun _ s => advanceTags merged arcs s) (·.1.isEmpty)
        (fun i s => (met s.1 (connections arcs)).map fun m => ⟨m.2.1, m.2.2, m.1.tag, i + 1⟩)
        n i s hops
      ⟨r.1.1, r.1.2, r.2⟩ := by
  induction n generalizing i s hops with
  | zero => rfl
  | succ n ih =>
    -- both stop under the same condition, and both go on with the same state
    by_cases hidle : (advanceTags merged arcs s).1.isEmpty
    · simp only [loop, hidle, if_true]
      exact if_pos hidle
    · simp only [loop, hidle, if_false, Bool.false_eq_true]
      exact (if_neg hidle).trans (ih (i + 1) (advanceTags merged arcs s) _)

/-- The first search after step `i`: the tags met last, and all vertices reached. -/
structure ShowsTags (merged : Bool) (arcs : List Arc) (D : List Value) (i : Nat)
    (s : List Tagged × List Value) : Prop where
  current : ∀ t, t ∈ s.1 ↔ TagAt merged (· ∈ arcs) (· ∈ D) i t.vertex t.tag
  reached : ∀ v, v ∈ s.2 ↔ Within (Leads (· ∈ arcs) .descendant) (· ∈ D) i v

namespace ShowsTags

variable {i : Nat} {s : List Tagged × List Value}

theorem mem_advance (hD : .null ∉ D) (h : ShowsTags merged arcs D i s) (t : Tagged) :
    t ∈ (advanceTags merged arcs s).1 ↔ TagAt merged (· ∈ arcs) (· ∈ D) (i + 1) t.vertex t.tag := by
  have hnull : Value.null ∉ s.2 := by
    rw [h.reached]
    exact fun hw => hw.ne_null (fun _ _ => Leads.ne_null) hD rfl
  rw [tagAt_succ_iff, ← h.reached]
  simp only [advanceTags, List.mem_eraseDups, List.mem_filter, List.mem_map, Value.absentFrom_iff]
  constructor
  · intro hin
    obtain ⟨⟨⟨t', c, p⟩, hmet, rfl⟩, hnew⟩ := hin
    obtain ⟨ht, rfl, hp, a, ha, rfl, hparent⟩ := mem_met.mp hmet
    have hwithin : t'.vertex ∈ s.2 := (h.reached _).mpr ((h.current t').mp ht).1.1
    -- nothing reached cannot be, since a vertex was current
    rcases hnew with hnone | ⟨hc, _, hnew⟩
    · simp [hnone] at hwithin
    · exact ⟨hnew, t'.vertex, t'.tag, (h.current t').mp ht, ⟨a, ha, hparent, rfl, hp, hc⟩, rfl⟩
  · intro hin
    obtain ⟨hnew, p, tag, htag, ⟨a, ha, rfl, hc, hp, hn⟩, heq⟩ := hin
    refine ⟨⟨(⟨a.parent, tag⟩, (t.vertex, a.parent)), ?_, ?_⟩, .inr ⟨hn, hnull, hnew⟩⟩
    · exact mem_met.mpr ⟨(h.current _).mpr htag, rfl, hp, a, ha, hc, rfl⟩
    · simp only [retag, ← heq]

theorem advance (hD : .null ∉ D) (h : ShowsTags merged arcs D i s) :
    ShowsTags merged arcs D (i + 1) (advanceTags merged arcs s) where
  current := h.mem_advance hD
  reached := by
    intro v
    have hsplit : v ∈ (advanceTags merged arcs s).2 ↔
        v ∈ s.2 ∨ ∃ t ∈ (advanceTags merged arcs s).1, t.vertex = v := by
      simp [advanceTags]
    rw [hsplit, h.reached, Within.iff_exists_at, Within.iff_exists_at]
    constructor
    · intro hin
      rcases hin with ⟨j, hj, hat⟩ | ⟨t, ht, rfl⟩
      · exact ⟨j, by omega, hat⟩
      · exact ⟨i + 1, le_rfl, ((h.mem_advance hD t).mp ht).1⟩
    · intro hin
      obtain ⟨j, hj, hat⟩ := hin
      rcases Nat.le_succ_iff.mp hj with hj | rfl
      · exact .inl ⟨j, hj, hat⟩
      · obtain ⟨tag, htag⟩ := exists_tagAt merged hat
        exact .inr ⟨⟨v, tag⟩, (h.mem_advance hD _).mpr htag, rfl⟩

/-- Where no vertex is met, none is met one step later. -/
theorem of_idle (h : ShowsTags merged arcs D i s) (hidle : s.1 = []) :
    ShowsTags merged arcs D (i + 1) s := by
  have hempty (v : Value) : ¬ At (Leads (· ∈ arcs) .descendant) (· ∈ D) (i + 1) v := by
    intro hat
    obtain ⟨p, hp, _⟩ := hat.exists_pred
    obtain ⟨tag, htag⟩ := exists_tagAt merged hp
    simpa [hidle] using (h.current ⟨p, tag⟩).mpr htag
  refine ⟨fun t => ?_, fun v => ?_⟩
  · simp only [hidle, List.not_mem_nil, false_iff]
    exact fun htag => hempty _ htag.1
  · rw [h.reached, Within.iff_exists_at, Within.iff_exists_at]
    constructor
    · exact fun ⟨j, hj, hat⟩ => ⟨j, by omega, hat⟩
    · intro hin
      obtain ⟨j, hj, hat⟩ := hin
      rcases Nat.le_succ_iff.mp hj with hj | rfl
      · exact ⟨j, hj, hat⟩
      · exact absurd hat (hempty v)

theorem steady (hD : .null ∉ D) :
    Steady (fun _ s => advanceTags merged arcs s) (·.1.isEmpty) (ShowsTags merged arcs D) where
  step h := h.advance hD
  rest h hidle := h.of_idle (List.isEmpty_iff.mp hidle)

end ShowsTags

theorem showsTags_start (merged : Bool) (arcs : List Arc) (D : List Value) :
    ShowsTags merged arcs D 0 ((Back.start D).current, (Back.start D).reached) where
  current := by
    intro t
    obtain ⟨v, tag⟩ := t
    simp only [Back.start, List.mem_map, Value.mem_groups, Tagged.mk.injEq, TagAt, At.zero_iff]
    cases merged with
    | true =>
      constructor
      · rintro ⟨d, hd, rfl, rfl⟩
        exact ⟨hd, rfl⟩
      · rintro ⟨hd, rfl⟩
        exact ⟨_, hd, rfl, rfl⟩
    | false =>
      constructor
      · rintro ⟨d, hd, rfl, rfl⟩
        exact ⟨hd, hd, .nil d⟩
      · rintro ⟨hd, _, hw⟩
        exact ⟨v, hd, rfl, hw.eq_of_zero.symm⟩
  reached := by
    intro v
    simp [Back.start, Within.zero_iff]

section Back

variable {n : Nat}

theorem mem_reached_back (hD : .null ∉ D) (v : Value) :
    v ∈ (back merged (connections arcs) n 1 (.start D)).reached ↔
      Within (Leads (· ∈ arcs) .descendant) (· ∈ D) n v := by
  rw [show back merged (connections arcs) n 1 (.start D) = _ from
    back_eq_loop n 0 ((Back.start D).current, (Back.start D).reached) []]
  refine (((ShowsTags.steady hD).loop_fst (showsTags_start merged arcs D) n []).reached v).trans ?_
  rw [Nat.zero_add]

/-- An edge is recorded at the parent that was met, under each of its tags. -/
theorem mem_hops_back (hD : .null ∉ D) (h : TaggedHop) :
    h ∈ (back merged (connections arcs) n 1 (.start D)).hops ↔
      ∃ j < n, TagAt merged (· ∈ arcs) (· ∈ D) j h.parent h.tag ∧
        (∃ a ∈ arcs, a.child = h.child ∧ a.parent = h.parent) ∧ h.depth = j + 1 := by
  rw [show back merged (connections arcs) n 1 (.start D) = _ from
    back_eq_loop n 0 ((Back.start D).current, (Back.start D).reached) []]
  let N (j : Nat) (h : TaggedHop) : Prop := TagAt merged (· ∈ arcs) (· ∈ D) j h.parent h.tag ∧
    (∃ a ∈ arcs, a.child = h.child ∧ a.parent = h.parent) ∧ h.depth = j + 1
  refine ((ShowsTags.steady hD).mem_loop_snd (N := N) ?_ ?_ (showsTags_start merged arcs D) n []
    h).trans ?_
  · intro i s hs h
    simp only [List.mem_map, N]
    constructor
    · intro hin
      obtain ⟨⟨t, c, p⟩, hmet, rfl⟩ := hin
      obtain ⟨ht, rfl, _, ha⟩ := mem_met.mp hmet
      exact ⟨(hs.current t).mp ht, ha, rfl⟩
    · intro hin
      obtain ⟨htag, ha, hdepth⟩ := hin
      have hp : h.parent ≠ .null := htag.1.1.ne_null (fun _ _ => Leads.ne_null) hD
      refine ⟨(⟨h.parent, h.tag⟩, (h.child, h.parent)), ?_, by simp [← hdepth]⟩
      exact mem_met.mpr ⟨(hs.current _).mpr htag, rfl, hp, ha⟩
  · intro i s hs hidle h hN
    have : (⟨h.parent, h.tag⟩ : Tagged) ∈ s.1 := (hs.current _).mpr hN.1
    simp [List.isEmpty_iff.mp hidle] at this
  · simp [N]

end Back

/-! ## The second search -/

/-- The vertices that are possible after `u` at step `i` under a tag: the parents from which the
budget is left. -/
def Fits (merged : Bool) (E : Arc → Prop) (D : Value → Prop) (budget i : Nat) (u tag p : Value) :
    Prop :=
  Leads E .ancestor u p ∧ ∃ j, j + 1 + i ≤ budget ∧ TagAt merged E D j p tag

/-- The second search goes from `u` at step `i` to the least vertex possible under some tag. -/
def Picks (merged : Bool) (E : Arc → Prop) (D : Value → Prop) (budget i : Nat) (u v : Value) :
    Prop :=
  ∃ tag, Value.IsLeast (Fits merged E D budget i u tag) v

theorem Fits.ne_null {E : Arc → Prop} {D : Value → Prop} {budget i : Nat} {u tag p : Value}
    (h : Fits merged E D budget i u tag p) : p ≠ .null := h.1.ne_null

/-- The ids of parents are told apart by their order. -/
def OrderedParents (E : Arc → Prop) : Prop :=
  Value.Ordered fun v => v ≠ .null ∧ ∃ a, E a ∧ a.parent = v

theorem ordered_fits {E : Arc → Prop} {D : Value → Prop} {budget i : Nat} {u tag : Value}
    (h : OrderedParents E) : Value.Ordered (Fits merged E D budget i u tag) := by
  refine h.mono fun w hw => ⟨hw.ne_null, ?_⟩
  obtain ⟨⟨a, ha, _, hfar, _⟩, _⟩ := hw
  exact ⟨a, ha, hfar⟩

section Choices

variable {budget i : Nat} {f : Frontier}

/-- What the first search recorded at the current vertices and what fits the budget. -/
def fitting (merged : Bool) (arcs : List Arc) (D : List Value) (budget i : Nat) (f : Frontier) :
    List TaggedHop :=
  (back merged (connections arcs) budget 1 (.start D)).hops.filter fun h =>
    h.child.memberOf f.current && h.depth + i ≤ budget

/-- The parents recorded for a vertex under a tag. -/
def parentsUnder (hops : List TaggedHop) (key : Value × Value) : List Value :=
  (hops.filter fun h => (h.child, h.tag) = key).map (·.parent)

/-- What is chosen is the least parent recorded for some vertex under some tag. -/
theorem mem_choices_iff_least {hops : List TaggedHop} {v : Value} :
    v ∈ choices f hops budget i ↔
      let fits := hops.filter fun h => h.child.memberOf f.current && h.depth + i ≤ budget
      ∃ h ∈ fits, Value.least (parentsUnder fits (h.child, h.tag)) = v := by
  simp only [choices, List.mem_map, List.mem_eraseDups]
  constructor
  · rintro ⟨_, ⟨h, hh, rfl⟩, rfl⟩
    exact ⟨h, hh, rfl⟩
  · rintro ⟨h, hh, rfl⟩
    exact ⟨_, ⟨h, hh, rfl⟩, rfl⟩

/-- It is the parent of some edge recorded that fits, whatever the order. -/
theorem exists_hop_of_mem_choices {hops : List TaggedHop} {v : Value}
    (hv : v ∈ choices f hops budget i) :
    ∃ h ∈ hops.filter (fun h => h.child.memberOf f.current && h.depth + i ≤ budget),
      h.parent = v := by
  let fitting := hops.filter fun h => h.child.memberOf f.current && h.depth + i ≤ budget
  obtain ⟨h, hh, rfl⟩ := mem_choices_iff_least.mp hv
  have hgroup : h.parent ∈ parentsUnder fitting (h.child, h.tag) :=
    List.mem_map_of_mem (List.mem_filter.mpr ⟨hh, by simp⟩)
  obtain ⟨h', hh', heq⟩ := List.mem_map.mp (Value.least_mem (List.ne_nil_of_mem hgroup))
  exact ⟨h', (List.mem_filter.mp hh').1, heq⟩

theorem of_mem_fitting (hD : .null ∉ D) {h : TaggedHop}
    (hh : h ∈ fitting merged arcs D budget i f) :
    h.child ∈ f.current ∧ Fits merged (· ∈ arcs) (· ∈ D) budget i h.child h.tag h.parent := by
  simp only [fitting, List.mem_filter, mem_hops_back hD, Bool.and_eq_true, Value.memberOf_iff,
    decide_eq_true_eq] at hh
  obtain ⟨⟨j, _, htag, ⟨a, ha, hc, hp⟩, hdepth⟩, ⟨hnull, hcurrent⟩, hfit⟩ := hh
  have hparent : h.parent ≠ .null := htag.1.1.ne_null (fun _ _ => Leads.ne_null) hD
  exact ⟨hcurrent, ⟨a, ha, hc, hp, hnull, hparent⟩, j, by omega, htag⟩

theorem exists_mem_fitting (hD : .null ∉ D) {u tag p : Value} (hu : u ∈ f.current)
    (hp : Fits merged (· ∈ arcs) (· ∈ D) budget i u tag p) :
    ∃ h ∈ fitting merged arcs D budget i f, (h.child, h.tag) = (u, tag) ∧ h.parent = p := by
  obtain ⟨⟨a, ha, hc, hfar, hnull, _⟩, j, hj, htag⟩ := hp
  refine ⟨⟨u, p, tag, j + 1⟩, ?_, rfl, rfl⟩
  simp only [fitting, List.mem_filter, mem_hops_back hD, Bool.and_eq_true, Value.memberOf_iff,
    decide_eq_true_eq]
  exact ⟨⟨j, by omega, htag, ⟨a, ha, hc, hfar⟩, rfl⟩, ⟨hnull, hu⟩, hj⟩

theorem mem_parentsUnder (hD : .null ∉ D) {u tag p : Value} (hu : u ∈ f.current) :
    p ∈ parentsUnder (fitting merged arcs D budget i f) (u, tag) ↔
      Fits merged (· ∈ arcs) (· ∈ D) budget i u tag p := by
  simp only [parentsUnder, List.mem_map, List.mem_filter, decide_eq_true_eq]
  constructor
  · intro h
    obtain ⟨h, ⟨hin, hkey⟩, rfl⟩ := h
    obtain ⟨rfl, rfl⟩ := Prod.mk.inj hkey
    exact (of_mem_fitting hD hin).2
  · intro hp
    obtain ⟨h, hin, hkey, hparent⟩ := exists_mem_fitting hD hu hp
    exact ⟨h, ⟨hin, hkey⟩, hparent⟩

/-- Where something fits under a tag, something that fits is chosen, whatever the order. -/
theorem exists_mem_choices_of_fits (hD : .null ∉ D) {u tag p : Value} (hu : u ∈ f.current)
    (hp : Fits merged (· ∈ arcs) (· ∈ D) budget i u tag p) :
    ∃ v ∈ choices f (back merged (connections arcs) budget 1 (.start D)).hops budget i,
      Fits merged (· ∈ arcs) (· ∈ D) budget i u tag v := by
  obtain ⟨h, hin, hkey, _⟩ := exists_mem_fitting hD hu hp
  have hgroup := (mem_parentsUnder hD hu).mpr hp
  refine ⟨_, mem_choices_iff_least.mpr ⟨h, hin, rfl⟩, (mem_parentsUnder hD hu).mp ?_⟩
  rw [hkey]
  exact Value.least_mem (List.ne_nil_of_mem hgroup)

/-- The least of the parents recorded is the least of those that are possible. -/
theorem isLeast_parentsUnder (hD : .null ∉ D) (hordered : OrderedParents (· ∈ arcs))
    {u tag p : Value} (hu : u ∈ f.current)
    (hp : Fits merged (· ∈ arcs) (· ∈ D) budget i u tag p) :
    Value.IsLeast (Fits merged (· ∈ arcs) (· ∈ D) budget i u tag)
      (Value.least (parentsUnder (fitting merged arcs D budget i f) (u, tag))) := by
  have hsome (w : Value) :
      w ≠ .null ∧ w ∈ parentsUnder (fitting merged arcs D budget i f) (u, tag) ↔
        Fits merged (· ∈ arcs) (· ∈ D) budget i u tag w := by
    rw [mem_parentsUnder hD hu]
    exact ⟨fun h => h.2, fun h => ⟨h.ne_null, h⟩⟩
  -- on these parents the order is total, so the least of them is well defined
  have hparents : Value.Ordered fun w =>
      w ≠ .null ∧ w ∈ parentsUnder (fitting merged arcs D budget i f) (u, tag) :=
    (ordered_fits hordered).mono fun w hw => (hsome w).mp hw
  have hleast := hparents.isLeast_least ((mem_parentsUnder hD hu).mpr hp) hp.ne_null
  simpa only [hsome] using hleast

theorem mem_choices (hD : .null ∉ D) (hordered : OrderedParents (· ∈ arcs)) (v : Value) :
    v ∈ choices f (back merged (connections arcs) budget 1 (.start D)).hops budget i ↔
      ∃ u ∈ f.current, Picks merged (· ∈ arcs) (· ∈ D) budget i u v := by
  rw [mem_choices_iff_least]
  constructor
  · intro h
    obtain ⟨h, hin, rfl⟩ := h
    obtain ⟨hu, hp⟩ := of_mem_fitting hD hin
    exact ⟨h.child, hu, h.tag, isLeast_parentsUnder hD hordered hu hp⟩
  · intro h
    obtain ⟨u, hu, tag, hv⟩ := h
    obtain ⟨h, hin, hkey, _⟩ := exists_mem_fitting hD hu hv.1
    refine ⟨h, hin, ?_⟩
    rw [hkey]
    exact (ordered_fits hordered).isLeast_unique (isLeast_parentsUnder hD hordered hu hv.1) hv

end Choices

/-! ## First visits -/

/-- The vertices that are visited first at step `i`: the starts, and then the vertices picked from
those of the step before that were not visited yet. -/
def FirstAt (pick : Nat → Value → Value → Prop) (S : Value → Prop) : Nat → Value → Prop
  | 0, v => S v
  | i + 1, v => (∃ u, FirstAt pick S i u ∧ pick i u v) ∧ ∀ j ≤ i, ¬ FirstAt pick S j v
termination_by i _ => i

section FirstAt

variable {pick : Nat → Value → Value → Prop} {S : Value → Prop}

theorem firstAt_zero_iff {v : Value} : FirstAt pick S 0 v ↔ S v := by
  rw [FirstAt]

theorem firstAt_succ_iff {i : Nat} {v : Value} : FirstAt pick S (i + 1) v ↔
    (∃ u, FirstAt pick S i u ∧ pick i u v) ∧ ∀ j ≤ i, ¬ FirstAt pick S j v := by
  rw [FirstAt]

theorem FirstAt.unique {i j : Nat} {v : Value} (hi : FirstAt pick S i v) (hj : FirstAt pick S j v) :
    i = j := by
  have hlt {i j : Nat} (hi : FirstAt pick S i v) (hj : FirstAt pick S j v) : ¬ i < j := by
    intro hij
    obtain ⟨k, rfl⟩ := Nat.exists_eq_add_of_lt hij
    exact (firstAt_succ_iff.mp hj).2 i (by omega) hi
  have := hlt hi hj
  have := hlt hj hi
  omega

end FirstAt

/-- A search that goes by picks keeps to the layers of first visits. -/
theorem pick_layers {arrivals : Nat → Frontier → List Value} {pick : Nat → Value → Value → Prop}
    {S : Value → Prop} (hS : ¬ S .null) (hpick : ∀ i u v, pick i u v → v ≠ .null)
    (harrivals : ∀ i f v, v ∈ arrivals i f ↔ ∃ u ∈ f.current, pick i u v) :
    Frontier.Layers arrivals (FirstAt pick S) := by
  have hnull {i : Nat} {v : Value} (h : FirstAt pick S i v) : v ≠ .null := by
    cases i with
    | zero =>
      rintro rfl
      exact hS (firstAt_zero_iff.mp h)
    | succ i =>
      obtain ⟨⟨u, _, hp⟩, _⟩ := firstAt_succ_iff.mp h
      exact hpick i u v hp
  refine ⟨hnull, FirstAt.unique, fun {i f v} hf hv hnew => ?_, fun {i f} hnone => ?_⟩
  -- what was not reached so far is in no layer so far
  · have hout (j : Nat) (hj : j ≤ i) : ¬ FirstAt pick S j v :=
      fun hat => hnew ((hf.reached v).mpr ⟨j, hj, hat⟩)
    simp only [harrivals i f, firstAt_succ_iff, hf.current]
    exact ⟨fun h => ⟨h, hout⟩, fun h => h.1⟩
  · rw [List.eq_nil_iff_forall_not_mem]
    intro v hv
    obtain ⟨u, hu, _⟩ := (harrivals i f v).mp hv
    simp [hnone] at hu

theorem forward_eq_sweep (hops : List TaggedHop) (budget n i : Nat) (f : Frontier)
    (noted : List Unit) :
    forward hops budget n i f =
      (Frontier.sweep (fun i f => choices f hops budget i) (fun _ _ => []) n i f noted).1 := by
  induction n generalizing i f noted with
  | zero => rfl
  | succ n ih =>
    simp only [forward, Frontier.sweep, loop]
    split
    · rfl
    · exact ih (i + 1) _ _

theorem vertices_eq_sweep (merged : Bool) (arcs : List Arc) (among : List Value → List Value)
    (D : List Value) (m : Nat) :
    let b := back merged (connections arcs) m 1 (.start D)
    vertices merged arcs among D m =
      (Frontier.sweep (fun i f => choices f b.hops m i) (fun _ _ => []) m 0
        (.start (among b.reached)) ([] : List Unit)).1.reached :=
  congrArg Frontier.reached (forward_eq_sweep _ _ _ _ _ [])

/-- The frontier of the second search after one step more. -/
def onward (merged : Bool) (arcs : List Arc) (D : List Value) (budget i : Nat) (f : Frontier) :
    Frontier :=
  f.advance (choices f (back merged (connections arcs) budget 1 (.start D)).hops budget i)

section Onward

variable {budget i : Nat} {f : Frontier} {v : Value}

theorem mem_choices_of_mem_onward (h : v ∈ (onward merged arcs D budget i f).current) :
    v ∈ choices f (back merged (connections arcs) budget 1 (.start D)).hops budget i :=
  (List.mem_filter.mp (Value.mem_groups.mp h)).1

theorem mem_onward_of_mem_choices (hnull : .null ∉ f.reached) (hv : v ≠ .null)
    (hnew : v ∉ f.reached)
    (h : v ∈ choices f (back merged (connections arcs) budget 1 (.start D)).hops budget i) :
    v ∈ (onward merged arcs D budget i f).current :=
  Value.mem_groups.mpr (List.mem_filter.mpr ⟨h, Value.absentFrom_iff.mpr (.inr ⟨hv, hnull, hnew⟩)⟩)

end Onward

/-- What every step of the second search keeps holds when it ends. -/
theorem exists_reached_eq_vertices {I : Nat → Frontier → Prop} {among : List Value → List Value}
    {m : Nat} (h : Steady (onward merged arcs D m) (fun f => f.current.isEmpty) I)
    (hstart : I 0 (.start (among (back merged (connections arcs) m 1 (.start D)).reached))) :
    ∃ f, I m f ∧ f.reached = vertices merged arcs among D m := by
  have hend : I (0 + m) (loop _ _ (fun _ _ => ([] : List Unit)) m 0 _ []).1 :=
    h.loop_fst hstart m []
  rw [Nat.zero_add] at hend
  exact ⟨_, hend, (vertices_eq_sweep merged arcs among D m).symm⟩

/-- Both searches leave the vertices that are visited first within the budget. -/
theorem mem_vertices {S : List Value} {among : List Value → List Value} {budget : Nat}
    (hS : .null ∉ S) (hD : .null ∉ D) (hordered : OrderedParents (· ∈ arcs))
    (hamong : SourcesAmong among S (back merged (connections arcs) budget 1 (.start D)).reached)
    (v : Value) :
    v ∈ vertices merged arcs among D budget ↔
      ∃ i ≤ budget, FirstAt (Picks merged (· ∈ arcs) (· ∈ D) budget)
        (fun v => v ∈ S ∧ Within (Leads (· ∈ arcs) .descendant) (· ∈ D) budget v) i v := by
  have hlayers : Frontier.Layers (fun i f => choices f
      (back merged (connections arcs) budget 1 (.start D)).hops budget i)
      (FirstAt (Picks merged (· ∈ arcs) (· ∈ D) budget)
        (fun v => v ∈ S ∧ Within (Leads (· ∈ arcs) .descendant) (· ∈ D) budget v)) := by
    refine pick_layers (fun h => hS h.1) ?_ fun i f => mem_choices hD hordered
    intro i u v hpick
    obtain ⟨_, hv, _⟩ := hpick
    exact hv.ne_null
  rw [vertices_eq_sweep, Frontier.mem_reached_sweep hlayers, Nat.zero_add]
  apply Frontier.shows_start
  intro v
  rw [hamong v, mem_reached_back hD, firstAt_zero_iff]

end Provenance.Shortest
