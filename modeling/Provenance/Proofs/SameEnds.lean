-- SUMMARY: Searches over edges that differ in nothing but ids and order.
import Provenance.Proofs.Known

/-!
# Edges with the same ends

A search looks at an edge through its ends, and at what it has found through its members: lists are
grouped before the search goes on with them. So edges may share their ends with others, and may come in
any order. Of two lists of edges with the same pairs of ends, each search reaches the same vertices in
the same order, provided that the order of values tells the ends apart.
-/
namespace Provenance

/-- The same members, in whatever order and however often. -/
def SameMembers {α : Type} (xs ys : List α) : Prop := ∀ x, x ∈ xs ↔ x ∈ ys

namespace SameMembers

variable {α β : Type} {xs ys xs' ys' : List α}

theorem refl (xs : List α) : SameMembers xs xs := fun _ => Iff.rfl

theorem append (h : SameMembers xs ys) (h' : SameMembers xs' ys') :
    SameMembers (xs ++ xs') (ys ++ ys') :=
  fun x => by rw [List.mem_append, List.mem_append, h, h']

theorem map (h : SameMembers xs ys) (f : α → β) : SameMembers (xs.map f) (ys.map f) :=
  fun x => by simp only [List.mem_map, h _]

theorem filter (h : SameMembers xs ys) (p : α → Bool) : SameMembers (xs.filter p) (ys.filter p) :=
  fun x => by rw [List.mem_filter, List.mem_filter, h]

theorem eraseDups [BEq α] [LawfulBEq α] (h : SameMembers xs ys) :
    SameMembers xs.eraseDups ys.eraseDups :=
  fun x => by rw [List.mem_eraseDups, List.mem_eraseDups, h]

theorem isEmpty_eq (h : SameMembers xs ys) : xs.isEmpty = ys.isEmpty := by
  rw [Bool.eq_iff_iff, List.isEmpty_iff, List.isEmpty_iff, List.eq_nil_iff_forall_not_mem,
    List.eq_nil_iff_forall_not_mem]
  exact forall_congr' fun x => not_congr (h x)

end SameMembers

namespace Arc

/-- The value is at an end of one of the edges. -/
def IsEnd (E : Arc → Prop) (v : Value) : Prop := ∃ a, E a ∧ (v = a.child ∨ v = a.parent)

/-- The pairs of ends are the same. -/
def SameEnds (arcs arcs' : List Arc) : Prop :=
  ∀ child parent, (∃ a ∈ arcs, a.child = child ∧ a.parent = parent) ↔
    ∃ a ∈ arcs', a.child = child ∧ a.parent = parent

/-- The pairs of ends are the same, and the order of values tells the ends apart. -/
structure Parallel (arcs arcs' : List Arc) : Prop where
  ends : SameEnds arcs arcs'
  ordered : Value.Ordered (IsEnd (· ∈ arcs))

variable {arcs arcs' : List Arc}

theorem isEnd_child {a : Arc} (ha : a ∈ arcs) : IsEnd (· ∈ arcs) a.child := ⟨a, ha, .inl rfl⟩

theorem isEnd_parent {a : Arc} (ha : a ∈ arcs) : IsEnd (· ∈ arcs) a.parent := ⟨a, ha, .inr rfl⟩

theorem isEnd_far {a : Arc} (ha : a ∈ arcs) (way : Way) : IsEnd (· ∈ arcs) (a.far way) := by
  cases way with
  | ancestor => exact isEnd_parent ha
  | descendant => exact isEnd_child ha

theorem Parallel.nil : Parallel [] [] :=
  ⟨fun _ _ => Iff.rfl, (Value.ordered_of_texts (P := fun _ => False) fun _ h => h.elim).mono
    fun _ ⟨_, ha, _⟩ => absurd ha (by simp)⟩

namespace SameEnds

/-- What can be said about an edge by its ends holds of an edge in either list. -/
theorem exists_iff (h : SameEnds arcs arcs') (p : Value → Value → Prop) :
    (∃ a ∈ arcs, p a.child a.parent) ↔ ∃ a ∈ arcs', p a.child a.parent := by
  constructor
  · intro ⟨a, ha, hp⟩
    obtain ⟨a', ha', hchild, hparent⟩ := (h a.child a.parent).mp ⟨a, ha, rfl, rfl⟩
    exact ⟨a', ha', by rwa [hchild, hparent]⟩
  · intro ⟨a', ha', hp⟩
    obtain ⟨a, ha, hchild, hparent⟩ := (h a'.child a'.parent).mpr ⟨a', ha', rfl, rfl⟩
    exact ⟨a, ha, by rwa [hchild, hparent]⟩

end SameEnds
end Arc

section Searches

variable {arcs arcs' : List Arc} (hends : Arc.SameEnds arcs arcs')

/-! ## Frontiers -/

namespace Frontier

/-- What a frontier arrives at matters by its members only. -/
theorem advance_congr {P : Value → Prop} (hordered : Value.Ordered P) {arrived arrived' : List Value}
    (h : SameMembers arrived arrived') (hall : ∀ v ∈ arrived, P v) (f : Frontier) :
    f.advance arrived = f.advance arrived' := by
  have hgroups : Value.groups (arrived.filter (·.absentFrom f.reached)) =
      Value.groups (arrived'.filter (·.absentFrom f.reached)) :=
    hordered.groups_congr (h.filter _) fun v hv => hall v (List.mem_filter.mp hv).1
  simp only [advance, hgroups]

include hends

theorem sameMembers_reach (ways : List Way) (f : Frontier) :
    SameMembers (f.reach ways arcs) (f.reach ways arcs') := by
  intro v
  rw [mem_reach, mem_reach]
  refine exists_congr fun way => and_congr_right fun _ => ?_
  cases way with
  | ancestor => exact hends.exists_iff fun c p => c ≠ .null ∧ c ∈ f.current ∧ p = v
  | descendant => exact hends.exists_iff fun c p => p ≠ .null ∧ p ∈ f.current ∧ c = v

theorem sameMembers_recorded (ways : List Way) (f : Frontier) (depth : Nat) :
    SameMembers (ways.flatMap fun way => (f.exits way arcs).map fun a => Hop.mk a.child a.parent depth)
      (ways.flatMap fun way => (f.exits way arcs').map fun a => ⟨a.child, a.parent, depth⟩) := by
  intro h
  simp only [List.mem_flatMap, List.mem_map, mem_exits, and_assoc]
  refine exists_congr fun way => and_congr_right fun _ => ?_
  cases way with
  | ancestor =>
    exact hends.exists_iff fun c p => c ≠ .null ∧ c ∈ f.current ∧ Hop.mk c p depth = h
  | descendant =>
    exact hends.exists_iff fun c p => p ≠ .null ∧ p ∈ f.current ∧ Hop.mk c p depth = h

variable (hordered : Value.Ordered (Arc.IsEnd (· ∈ arcs)))

include hordered

theorem advance_reach_congr (ways : List Way) (f : Frontier) :
    f.advance (f.reach ways arcs) = f.advance (f.reach ways arcs') := by
  refine advance_congr hordered (sameMembers_reach hends ways f) (fun v hv => ?_) f
  obtain ⟨way, _, a, ha, _, _, rfl⟩ := mem_reach.mp hv
  exact Arc.isEnd_far ha way

/-- Which edges are crossed is another matter. -/
theorem explore_congr (way : Way) (n : Nat) (f : Frontier) (crossed crossed' : List Value) :
    (explore way arcs n f crossed).1 = (explore way arcs' n f crossed').1 := by
  rw [explore_eq_sweep way arcs n 0, explore_eq_sweep way arcs' n 0]
  refine (loop_alike (A := Eq) (B := fun _ _ => True) (fun _ f f' h => ?_) (fun h => by rw [h])
    (fun _ _ _ _ _ _ _ => trivial) rfl trivial n 0).1
  rw [h, advance_reach_congr hends hordered]

theorem record_congr (ways : List Way) (n : Nat) (f : Frontier) :
    (record ways arcs n 1 f []).1 = (record ways arcs' n 1 f []).1 ∧
      SameMembers (record ways arcs n 1 f []).2 (record ways arcs' n 1 f []).2 := by
  rw [record_eq_sweep ways arcs n 0, record_eq_sweep ways arcs' n 0]
  refine loop_alike (A := Eq) (B := SameMembers) (fun _ f f' h => ?_) (fun h => by rw [h])
    (fun i f f' _ _ h hnoted => ?_) rfl (.refl []) n 0
  · rw [h, advance_reach_congr hends hordered]
  · subst h
    exact hnoted.append (sameMembers_recorded hends ways f (i + 1))

omit hends in
/-- The second search reaches the same vertices, and at each stage it leaves the same. -/
theorem retrace_congr {hops hops' : List Hop} (h : SameMembers hops hops')
    (hhops : ∀ h ∈ hops, Arc.IsEnd (· ∈ arcs) h.child ∧ Arc.IsEnd (· ∈ arcs) h.parent)
    (ways : List Way) (budget n : Nat) (f : Frontier) :
    (retrace ways hops budget n 0 f []).1 = (retrace ways hops' budget n 0 f []).1 ∧
      List.Forall₂ (fun s s' : Stage => s.left = s'.left) (retrace ways hops budget n 0 f []).2
        (retrace ways hops' budget n 0 f []).2 := by
  rw [retrace_eq_sweep, retrace_eq_sweep]
  refine loop_alike (A := Eq) (fun i f f' hf => ?_) (fun hf => by rw [hf])
    (fun i f f' _ _ hf hnoted => ?_) rfl .nil n 0
  · subst hf
    refine advance_congr hordered (fun v => ?_) (forall_arrivals hhops) f
    simp only [mem_arrivals, h _]
  · exact List.rel_append hnoted (.cons (by rw [hf]) .nil)

end Frontier

/-! ## Walks -/

include hends

theorem directedWalks_congr (hordered : Value.Ordered (Arc.IsEnd (· ∈ arcs)))
    (among : List Value → List Value) (destinations : List Value) (budget : Nat) :
    (directedWalks arcs among destinations budget).1 =
        (directedWalks arcs' among destinations budget).1 ∧
      List.Forall₂ (fun s s' : Frontier.Stage => s.left = s'.left)
        (directedWalks arcs among destinations budget).2
        (directedWalks arcs' among destinations budget).2 := by
  obtain ⟨hback, hhops⟩ := Frontier.record_congr hends hordered [.descendant] budget
    (.start destinations)
  simp only [directedWalks, ← hback]
  refine Frontier.retrace_congr hordered hhops ?_ _ _ _ _
  exact Frontier.forall_hops_record (fun a ha => ⟨Arc.isEnd_child ha, Arc.isEnd_parent ha⟩) budget

theorem undirectedWalks_congr (hordered : Value.Ordered (Arc.IsEnd (· ∈ arcs)))
    (among : List Value → List Value) (destinations : List Value) (budget : Nat) :
    undirectedWalks arcs among destinations budget =
      undirectedWalks arcs' among destinations budget := by
  obtain ⟨hback, hhops⟩ := Frontier.record_congr hends hordered [.descendant, .ancestor] budget
    (.start destinations)
  simp only [undirectedWalks, ← hback]
  refine (Frontier.retrace_congr hordered hhops ?_ _ _ _ _).1
  exact Frontier.forall_hops_record (fun a ha => ⟨Arc.isEnd_child ha, Arc.isEnd_parent ha⟩) budget

/-! ## Short paths -/

namespace Shortest

theorem sameMembers_met {current current' : List Tagged} (h : SameMembers current current') :
    SameMembers (met current (connections arcs)) (met current' (connections arcs')) := by
  rintro ⟨t, c, p⟩
  rw [mem_met, mem_met, h, hends c p]

variable (hordered : Value.Ordered (Arc.IsEnd (· ∈ arcs)))

include hordered

/-- The tags met last are the same, and the vertices reached are so in the same order. -/
theorem advanceTags_congr (merged : Bool) {s s' : List Tagged × List Value}
    (h : SameMembers s.1 s'.1 ∧ s.2 = s'.2) :
    SameMembers (advanceTags merged arcs s).1 (advanceTags merged arcs' s').1 ∧
      (advanceTags merged arcs s).2 = (advanceTags merged arcs' s').2 := by
  obtain ⟨hcurrent, hreached⟩ := h
  have hmet := sameMembers_met hends hcurrent
  have htags : SameMembers (advanceTags merged arcs s).1 (advanceTags merged arcs' s').1 := by
    simp only [advanceTags, hreached]
    exact ((hmet.map _).filter _).eraseDups
  refine ⟨htags, congrArg₂ _ hreached (hordered.groups_congr (htags.map _) fun v hv => ?_)⟩
  -- what is new is the child of an edge that was met
  obtain ⟨t, ht, rfl⟩ := List.mem_map.mp hv
  simp only [List.mem_eraseDups, List.mem_filter, List.mem_map] at ht
  obtain ⟨⟨⟨u, c, p⟩, hm, rfl⟩, _⟩ := ht
  obtain ⟨_, _, _, a, ha, rfl, _⟩ := mem_met.mp hm
  exact Arc.isEnd_child ha

theorem back_congr (merged : Bool) (n : Nat) (destinations : List Value) :
    (back merged (connections arcs) n 1 (.start destinations)).reached =
        (back merged (connections arcs') n 1 (.start destinations)).reached ∧
      SameMembers (back merged (connections arcs) n 1 (.start destinations)).hops
        (back merged (connections arcs') n 1 (.start destinations)).hops := by
  let s : List Tagged × List Value :=
    ((Value.groups destinations).map fun v => ⟨v, v⟩, Value.groups destinations)
  have hstart : Back.start destinations = ⟨s.1, s.2, []⟩ := rfl
  rw [hstart, back_eq_loop, back_eq_loop]
  dsimp only
  refine And.imp_left And.right (loop_alike (B := SameMembers)
    (A := fun s s' : List Tagged × List Value => SameMembers s.1 s'.1 ∧ s.2 = s'.2)
    (fun _ _ _ h => advanceTags_congr hends hordered merged h) (fun h => h.1.isEmpty_eq)
    (fun i s s' _ _ h hnoted => ?_) ⟨.refl _, rfl⟩ (.refl []) n 0)
  exact hnoted.append ((sameMembers_met hends h.1).map _)

omit hends in
/-- For a vertex and tag the least parent is the same, however often it was recorded. -/
theorem sameMembers_choices {hops hops' : List TaggedHop} (h : SameMembers hops hops')
    (hhops : ∀ h ∈ hops, Arc.IsEnd (· ∈ arcs) h.parent) (f : Frontier) (budget taken : Nat) :
    SameMembers (choices f hops budget taken) (choices f hops' budget taken) := by
  let fits (h : TaggedHop) : Bool := h.child.memberOf f.current && h.depth + taken ≤ budget
  have hfitting : SameMembers (hops.filter fits) (hops'.filter fits) := h.filter _
  have hleast (key : Value × Value) : Value.least (parentsUnder (hops.filter fits) key) =
      Value.least (parentsUnder (hops'.filter fits) key) := by
    refine hordered.least_congr ((hfitting.filter _).map _) fun v hv => ?_
    obtain ⟨h, hh, rfl⟩ := List.mem_map.mp hv
    exact hhops h (List.mem_filter.mp (List.mem_filter.mp hh).1).1
  change SameMembers
    (((hops.filter fits).map fun h => (h.child, h.tag)).eraseDups.map fun key =>
      Value.least (parentsUnder (hops.filter fits) key))
    (((hops'.filter fits).map fun h => (h.child, h.tag)).eraseDups.map fun key =>
      Value.least (parentsUnder (hops'.filter fits) key))
  simp only [hleast]
  exact (hfitting.map _).eraseDups.map _

theorem vertices_congr (merged : Bool) (among : List Value → List Value)
    (destinations : List Value) (budget : Nat) :
    vertices merged arcs among destinations budget =
      vertices merged arcs' among destinations budget := by
  obtain ⟨hback, hhops⟩ := back_congr hends hordered merged budget destinations
  have hparents : ∀ h ∈ (back merged (connections arcs) budget 1 (.start destinations)).hops,
      Arc.IsEnd (· ∈ arcs) h.parent := by
    intro h hh
    obtain ⟨a, ha, _, hparent⟩ := parent_of_mem_back hh
    exact hparent ▸ Arc.isEnd_parent ha
  simp only [vertices, ← hback]
  rw [forward_eq_sweep _ _ _ _ _ [], forward_eq_sweep _ _ _ _ _ []]
  refine congrArg Frontier.reached (loop_alike (A := Eq) (B := fun _ _ => True)
    (fun i f f' h => ?_) (fun h => by rw [h]) (fun _ _ _ _ _ _ _ => trivial) rfl trivial _ 0).1
  subst h
  refine Frontier.advance_congr hordered (sameMembers_choices hordered hhops hparents f budget i)
    (fun v hv => ?_) f
  obtain ⟨h, hh, rfl⟩ := exists_hop_of_mem_choices hv
  exact hparents h (List.mem_filter.mp hh).1

end Shortest
end Searches
end Provenance
