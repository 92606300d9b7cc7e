-- SUMMARY: Lineage into the graph that it starts from.
import Provenance.Proofs.Lineage
import Provenance.Proofs.Parallel
import Provenance.Proofs.BaseCopy

/-!
# Lineage in place

A graph may be the target of a search from its own vertices. The search along each way then begins
with what the ways before it have found, where a search into another graph begins with the same
vertices every time. Along a single way the graph grows by what a fresh target would get. Along both
ways it does so only if turning round, from the ancestors to their descendants, finds nothing.
-/
namespace Provenance

open Program

/-- The vertices of a graph that has grown along some ways, one after another. -/
def Spread (E : Arc → Prop) (S : Value → Prop) (k : Nat) (ways : List Way) : Value → Prop :=
  ways.foldl (fun S way => InLineage E [way] S k) S

/-- The ids of the edges that it has met, each way from where the ones before have led. -/
def CrossedBySpread (E : Arc → Prop) (S : Value → Prop) (k : Nat) (ways : List Way) (id : Value) :
    Prop :=
  ∃ done way, done ++ [way] <+: ways ∧ CrossedByLineage E [way] (Spread E S k done) k id

/-- The descendants of the ancestors, and the edges that lead to them, are found without turning
round too. Of the edges it is enough that the graph holds them already. -/
structure TurnsFindNothing (E : Arc → Prop) (S : Value → Prop) (k : Nat) (held : Value → Prop) :
    Prop where
  vertices : ∀ v, InLineage E [.descendant] (InLineage E [.ancestor] S k) k v →
    InLineage E [.ancestor, .descendant] S k v
  edges : ∀ id, CrossedByLineage E [.descendant] (InLineage E [.ancestor] S k) k id →
    held id ∨ CrossedByLineage E [.ancestor, .descendant] S k id

section Spread

variable {E : Arc → Prop} {S T : Value → Prop} {k : Nat} {ways : List Way} {way : Way} {v id : Value}

@[simp] theorem spread_nil : Spread E S k [] = S := rfl

@[simp] theorem spread_singleton : Spread E S k [way] = InLineage E [way] S k := rfl

theorem spread_append :
    Spread E S k (ways ++ [way]) = InLineage E [way] (Spread E S k ways) k := by
  simp [Spread]

@[simp] theorem not_crossedBySpread_nil : ¬ CrossedBySpread E S k [] id := by
  rintro ⟨done, way, hprefix, _⟩
  simp at hprefix

theorem crossedBySpread_append : CrossedBySpread E S k (ways ++ [way]) id ↔
    CrossedBySpread E S k ways id ∨ CrossedByLineage E [way] (Spread E S k ways) k id := by
  simp only [CrossedBySpread, List.prefix_concat_iff]
  constructor
  · rintro ⟨done, way', heq | hprefix, hcrossed⟩
    · obtain ⟨rfl, hway⟩ := List.append_inj' heq rfl
      obtain rfl : way' = way := by simpa using hway
      exact .inr hcrossed
    · exact .inl ⟨done, way', hprefix, hcrossed⟩
  · rintro (⟨done, way', hprefix, hcrossed⟩ | hcrossed)
    · exact ⟨done, way', .inr hprefix, hcrossed⟩
    · exact ⟨ways, way, .inl rfl, hcrossed⟩

theorem InLineage.of_start (hS : S v) (hway : way ∈ ways) : InLineage E ways S k v :=
  ⟨way, hway, (Within.zero_iff.mpr hS).mono (Nat.zero_le k)⟩

theorem InLineage.of_subset (hST : ∀ v, S v → T v) (h : InLineage E ways S k v) :
    InLineage E ways T k v := by
  obtain ⟨way, hway, hw⟩ := h
  exact ⟨way, hway, hw.of_subset hST⟩

theorem CrossedByLineage.of_subset (hST : ∀ v, S v → T v) (h : CrossedByLineage E ways S k id) :
    CrossedByLineage E ways T k id := by
  obtain ⟨way, hway, a, ha, hid, n, hn, hw⟩ := h
  exact ⟨way, hway, a, ha, hid, n, hn, hw.of_subset hST⟩

theorem InLineage.ne_null (hS : ¬ S .null) (h : InLineage E ways S k v) : v ≠ .null := by
  obtain ⟨_, _, hw⟩ := h
  exact hw.ne_null (fun _ _ => Leads.ne_null) hS

theorem not_spread_null (hS : ¬ S .null) : ¬ Spread E S k ways .null := by
  induction ways using List.reverseRecOn with
  | nil => exact hS
  | append_singleton ways way ih =>
    rw [spread_append]
    exact fun h => h.ne_null ih rfl

theorem CrossedBySpread.exists_arc (h : CrossedBySpread E S k ways id) : ∃ a, E a ∧ a.id = id := by
  obtain ⟨_, _, _, _, _, a, ha, hid, _⟩ := h
  exact ⟨a, ha, hid⟩

/-- Growing along both ways finds everything that searches from the start find along either. -/
theorem spread_both_iff : Spread E S k Direction.both.ways v ↔
    InLineage E Direction.both.ways S k v ∨
      InLineage E [.descendant] (InLineage E [.ancestor] S k) k v := by
  change InLineage E [.descendant] (InLineage E [.ancestor] S k) k v ↔ _
  refine (or_iff_right_of_imp fun h => ?_).symm
  obtain hanc | hdesc : InLineage E [.ancestor] S k v ∨ InLineage E [.descendant] S k v := by
    simpa [InLineage, Direction.ways] using h
  · exact .of_start hanc (List.mem_singleton_self _)
  · exact hdesc.of_subset fun u hu => .of_start hu (List.mem_singleton_self _)

theorem crossedBySpread_both_iff : CrossedBySpread E S k Direction.both.ways id ↔
    CrossedByLineage E Direction.both.ways S k id ∨
      CrossedByLineage E [.descendant] (InLineage E [.ancestor] S k) k id := by
  rw [show Direction.both.ways = [.ancestor] ++ [.descendant] from rfl, crossedBySpread_append,
    ← List.nil_append [Way.ancestor], crossedBySpread_append, List.nil_append, spread_singleton,
    crossedByLineage_append]
  simp only [not_crossedBySpread_nil, false_or, spread_nil]
  constructor
  · rintro (h | h)
    · exact .inl (.inl h)
    · exact .inr h
  · rintro ((h | h) | h)
    · exact .inl h
    · have hdesc : CrossedByLineage E [.descendant] S k id := crossedByLineage_singleton.mpr h
      exact .inr (hdesc.of_subset fun u hu => .of_start hu (List.mem_singleton_self _))
    · exact .inr h

theorem spread_iff_of_ne_both {direction : Direction} (h : direction ≠ .both) :
    Spread E S k direction.ways v ↔ InLineage E direction.ways S k v := by
  cases direction with
  | ancestor => rfl
  | descendant => rfl
  | both => exact absurd rfl h

theorem crossedBySpread_iff_of_ne_both {direction : Direction} (h : direction ≠ .both) :
    CrossedBySpread E S k direction.ways id ↔ CrossedByLineage E direction.ways S k id := by
  have hsingle (way : Way) : CrossedBySpread E S k [way] id ↔ CrossedByLineage E [way] S k id := by
    rw [← List.nil_append [way], crossedBySpread_append]
    simp
  cases direction with
  | ancestor => exact hsingle _
  | descendant => exact hsingle _
  | both => exact absurd rfl h

/-- Growing finds what searches from the start find, but for what is found by turning round. -/
theorem spread_iff_lineage_iff {held : Value → Prop} {direction : Direction} :
    ((∀ v, Spread E S k direction.ways v ↔ S v ∨ InLineage E direction.ways S k v) ∧
      ∀ id, held id ∨ CrossedBySpread E S k direction.ways id ↔
        held id ∨ CrossedByLineage E direction.ways S k id) ↔
      (direction = .both → TurnsFindNothing E S k held) := by
  have hstart (v : Value) :
      S v ∨ InLineage E direction.ways S k v ↔ InLineage E direction.ways S k v := by
    refine or_iff_right_of_imp fun hv => ?_
    cases direction <;> exact .of_start hv List.mem_cons_self
  simp only [hstart]
  by_cases hboth : direction = .both
  · subst hboth
    simp only [spread_both_iff, crossedBySpread_both_iff, true_imp_iff, or_iff_left_iff_imp,
      ← or_assoc]
    exact ⟨fun h => ⟨h.1, h.2⟩, fun h => ⟨h.vertices, h.edges⟩⟩
  · simp [hboth, spread_iff_of_ne_both hboth, crossedBySpread_iff_of_ne_both hboth]

end Spread

namespace Environment

variable {env : Environment} {s s' : Store} {target : String} {tables : TablePair}
  {subject start : GraphRef} {S held : Value → Prop} {vs es : List Value} {k : Nat}

/-! ## The search -/

/-- What is in a graph that grows from its own vertices, and what is not changed, when some of the ways
are done. -/
structure GrownAlong (env : Environment) (tables : TablePair) (E : Arc → Prop)
    (S held : Value → Prop) (k : Nat) (s : Store) (done : List Way) (s' : Store) : Prop where
  canScratch : s'.CanScratch
  same : Database.SameBut [tables.vertices, tables.edges] s.database s'.database
  vertices : env.schema.ListsOnce s'.database tables.vertices (Spread E S k done)
  edges : env.schema.ListsOnce s'.database tables.edges fun id =>
    held id ∨ CrossedBySpread E S k done id

theorem Sorted.edgeTable_of_same (hsorted : env.Sorted)
    (htarget : env.resolve (.named target) = .ok tables) {db db' : Database}
    (hs : Database.SameBut [tables.vertices, tables.edges] db db') :
    db'.find? env.schema.edgeTable = db.find? env.schema.edgeTable := by
  have hne := hsorted.annotations (.graph (.named target)) tables htarget .edge
  exact hs _ (by simpa using ⟨hne .vertex, hne .edge⟩)

/-- No graph has its edges where another has its vertices, the base graph among them. -/
theorem Sorted.edges_ne_vertices (hsorted : env.Sorted)
    (htarget : env.resolve (.named target) = .ok tables) {g : GraphRef} {others : TablePair}
    (hr : env.resolve g = .ok others) :
    Name.folded others.edges ≠ Name.folded tables.vertices := by
  cases g with
  | base =>
    obtain rfl := Except.ok.inj hr
    have hne := hsorted.annotations (.graph (.named target)) tables htarget .edge .vertex
    exact hne
  | named name => exact (hsorted.kinds _ _ _ _ htarget hr).symm

/-- The subject has the same edges as before. If it is the target itself, ids have come to those that
it holds, but only ids of edges that it had. -/
theorem GrownAlong.exists_subject {done : List Way}
    (h : env.GrownAlong tables (env.HasEdge s.database subject) S held k s done s')
    (hsorted : env.Sorted) (htarget : env.resolve (.named target) = .ok tables)
    (hedges : env.HasEdgeTable s.database) (hsubject : env.Holds s.database subject .edge es)
    (hids : env.schema.ListsOnce s.database tables.edges held) :
    ∃ es', env.Holds s'.database subject .edge es' ∧
      env.HasEdge s'.database subject = env.HasEdge s.database subject := by
  obtain ⟨t, ht, _⟩ := hedges
  have ht' := (hsorted.edgeTable_of_same htarget h.same).trans ht
  obtain ⟨others, hr, hlists⟩ := id hsubject
  by_cases hshared : Name.folded others.edges = Name.folded tables.edges
  · obtain ⟨ids, hl, _, hheld⟩ := hids
    obtain ⟨ids', hl', _, hmem⟩ := h.edges
    obtain rfl : es = ids := (hlists.of_folded hshared).unique hl
    have hsubject' : env.Holds s'.database subject .edge ids' :=
      ⟨others, hr, hl'.of_folded hshared.symm⟩
    refine ⟨ids', hsubject', funext fun a => propext ?_⟩
    rw [hasEdge_iff ht' hsubject', hasEdge_iff ht hsubject, hmem, hheld]
    refine and_congr_left fun _ => or_iff_left_of_imp fun hcrossed => ?_
    obtain ⟨a', ha', hid⟩ := hcrossed.exists_arc
    exact (hheld _).mp (hid ▸ ((hasEdge_iff ht hsubject).mp ha').1)
  · have hsubject' : env.Holds s'.database subject .edge es := by
      refine hsubject.of_same h.same fun others' hr' name hname => ?_
      obtain rfl : others = others' := by simpa [hr] using hr'
      simp only [List.mem_cons, List.not_mem_nil, or_false] at hname
      obtain rfl | rfl := hname
      · exact hsorted.edges_ne_vertices htarget hr
      · exact hshared
    refine ⟨es, hsubject', funext fun a => propext ?_⟩
    rw [hasEdge_iff ht' hsubject', hasEdge_iff ht hsubject]

theorem GrownAlong.of_sameData {E : Arc → Prop} {done : List Way} {s₁ : Store}
    (h : env.GrownAlong tables E S held k s done s') (hs : s'.SameData s₁) :
    env.GrownAlong tables E S held k s done s₁ := by
  refine ⟨hs.canScratch h.canScratch, ?_, ?_, ?_⟩ <;> rw [hs.database]
  · exact h.same
  · exact h.vertices
  · exact h.edges

section Growth

variable (hsorted : env.Sorted) (hscratch : s.CanScratch)
  (htarget : env.resolve (.named target) = .ok tables) (hedges : env.HasEdgeTable s.database)
  (hsubject : env.Holds s.database subject .edge es)
  (hvertices : env.schema.ListsOnce s.database tables.vertices S) (hS : ¬ S .null)
  (hids : env.schema.ListsOnce s.database tables.edges held) (hheld : ¬ held .null)

include hsorted htarget hedges hsubject hS hids hheld

/-- The next way begins with what the graph has come to. -/
theorem GrownAlong.along {edges? : Option String} {request : Nat} {done : List Way} {way : Way}
    (h : env.GrownAlong tables (env.HasEdge s.database subject) S held k s done s')
    (hscope : env.restriction? subject .edge = .ok edges?) :
    (env.lineageAlong request tables edges? tables.vertices k way).wp
      (fun _ => env.GrownAlong tables (env.HasEdge s.database subject) S held k s (done ++ [way]))
      s' := by
  obtain ⟨es', hsubject', hE⟩ := h.exists_subject hsorted htarget hedges hsubject hids
  have hedges' : env.HasEdgeTable s'.database := by
    simpa [HasEdgeTable, hsorted.edgeTable_of_same htarget h.same] using hedges
  obtain ⟨vs, hlists, _, hvs⟩ := id h.vertices
  have hstart : (· ∈ vs) = Spread (env.HasEdge s.database subject) S k done :=
    funext fun v => propext (hvs v)
  have hparts := (hsorted.edges_ne_vertices htarget htarget).symm
  refine (wp_lineageAlong h.canScratch hedges' hsubject' hscope hlists ?_ hparts h.vertices
    (not_spread_null hS) h.edges ?_).mono fun _ s₁ h₁ => ?_
  · exact fun hnull => not_spread_null hS ((hvs _).mp hnull)
  · rintro (hnull | hcrossed)
    · exact hheld hnull
    · obtain ⟨a, ha, hid⟩ := hcrossed.exists_arc
      exact ha.id_ne_null hedges hid
  obtain ⟨hscratch, hsame, hv, he⟩ := h₁
  rw [hE, hstart] at hv he
  refine ⟨hscratch, h.same.trans hsame, hv.congr fun v => ?_, he.congr fun id => ?_⟩
  · -- a search finds what it begins with
    rw [spread_append]
    exact or_iff_right_of_imp fun hv => .of_start hv (List.mem_singleton_self way)
  · rw [crossedBySpread_append, or_assoc]

include hscratch hvertices

/-- A search from the target's own vertices: what it leaves there after all ways of the direction. -/
theorem wp_lineage_inPlace (k : Nat) (direction : Direction) :
    (env.lineage (.named target) subject (.named target) k direction).wp
      (fun _ => env.GrownAlong tables (env.HasEdge s.database subject) S held k s direction.ways)
      s := by
  obtain ⟨edges?, hscope, _⟩ := hsubject.restriction?
  have hdepth : ¬ (k : Int) < 0 := by omega
  unfold lineage
  refine .bind (.ofExcept htarget ?_)
  simp only [hdepth, if_false, Int.toNat_natCast]
  refine .bind (.ofExcept hscope (.bind (.ofExcept htarget ?_)))
  refine .withScratch fun request s₁ hs₁ => ?_
  -- the invariant of the loop over the ways, before the first of them
  have hbefore : env.GrownAlong tables (env.HasEdge s.database subject) S held k s [] s := by
    refine ⟨hscratch, .refl _ _, hvertices, hids.congr fun id => ?_⟩
    simp
  refine (Program.wp.forM (env.GrownAlong tables (env.HasEdge s.database subject) S held k s)
    (hbefore.of_sameData hs₁) fun done way s₂ _ h => ?_).mono fun _ s₂ h s₃ hs₃ => ?_
  · exact h.along hsorted htarget hedges hsubject hS hids hheld hscope
  · exact h.of_sameData hs₃

end Growth
end Environment

/-! ## Growth in place and growth elsewhere -/

/-- An instruction that can grow a graph from its own vertices, but for the graphs it is about. -/
inductive Expansion
  | adjacent (direction : Direction)
  | lineage (depth : Nat) (direction : Direction)

/-- The table lists what it listed before and what another one lists elsewhere, each once. -/
def Schema.GrewBy (schema : Schema) (table other : String) (before after elsewhere : Database) : Prop :=
  ∃ former found, schema.Lists before table former ∧ schema.Lists elsewhere other found ∧
    schema.ListsOnce after table fun v => v ∈ former ∨ v ∈ found

theorem Schema.grewBy_iff {schema : Schema} {table other : String}
    {before after elsewhere : Database} {p q r : Value → Prop}
    (hbefore : schema.ListsOnce before table p) (hafter : schema.ListsOnce after table q)
    (helsewhere : schema.ListsOnce elsewhere other r) :
    schema.GrewBy table other before after elsewhere ↔ ∀ v, q v ↔ p v ∨ r v := by
  obtain ⟨former, hformer, _, hp⟩ := hbefore
  obtain ⟨found, hfound, _, hr⟩ := helsewhere
  constructor
  · rintro ⟨former', found', hformer', hfound', hboth⟩ v
    obtain rfl := hformer'.unique hformer
    obtain rfl := hfound'.unique hfound
    rw [hafter.unique hboth v, hp, hr]
  · intro h
    exact ⟨former, found, hformer, hfound, hafter.congr fun v => by rw [h, hp, hr]⟩

namespace Expansion

def instruction (target subject start : GraphRef) : Expansion → Instruction
  | adjacent direction => .adjacent target subject start direction
  | lineage depth direction => .lineage target subject start depth direction

def depth : Expansion → Nat
  | adjacent _ => 1
  | lineage depth _ => depth

def direction : Expansion → Direction
  | adjacent direction => direction
  | lineage _ direction => direction

/-- Neighbours are a lineage of one step. -/
theorem run_instruction [RegexLibrary] [Summation]
    (x : Expansion) (env : Environment) (target subject start : GraphRef) :
    (x.instruction target subject start).run env =
      Instruction.writing (env.lineage target subject start x.depth x.direction) := by
  cases x <;> rfl

end Expansion

namespace Environment

variable {env : Environment} {s : Store} {target other : String} {tables others : TablePair}
  {subject start : GraphRef} {S held : Value → Prop} {vs es : List Value}

/-- A graph that is searched from its own vertices grows by what a fresh target gets from the same
vertices. Along both ways this is so if and only if turning round finds nothing. -/
theorem lineage_inPlace_iff [RegexLibrary] [Summation]
    (hsorted : env.Sorted) (hscratch : s.CanScratch)
    (htarget : env.resolve (.named target) = .ok tables) (hedges : env.HasEdgeTable s.database)
    (hsubject : env.Holds s.database subject .edge es)
    (hvertices : env.schema.ListsOnce s.database tables.vertices S) (hS : ¬ S .null)
    (hids : env.schema.ListsOnce s.database tables.edges held) (hheld : ¬ held .null)
    (hfresh : env.Fresh s.database other others)
    (hstart : env.Holds s.database start .vertex vs) (hvs : ∀ v, v ∈ vs ↔ S v) (x : Expansion) :
    let inPlace := x.instruction (.named target) subject (.named target)
    let elsewhere := x.instruction (.named other) subject start
    env.outcome s inPlace = .ok .done ∧ env.outcome s elsewhere = .ok .done ∧
      ((∀ e, env.schema.GrewBy (tables.part e) (others.part e) s.database
          (env.issue s inPlace).database (env.issue s elsewhere).database) ↔
        (x.direction = .both →
          TurnsFindNothing (env.HasEdge s.database subject) S x.depth held)) := by
  intro inPlace elsewhere
  have hstarts : (· ∈ vs) = S := funext fun v => propext (hvs v)
  obtain ⟨hdone, hgrown⟩ := outcome_of_wp (x.run_instruction ..) (wp_lineage_inPlace hsorted hscratch
    htarget hedges hsubject hvertices hS hids hheld x.depth x.direction)
  obtain ⟨hdone', hfound⟩ := outcome_of_wp (x.run_instruction ..) (wp_lineage hscratch hfresh hedges
    hsubject hstart (fun hnull => hS ((hvs _).mp hnull)) x.depth x.direction)
  rw [hstarts] at hfound
  refine ⟨hdone, hdone', ?_⟩
  have hv := Schema.grewBy_iff hvertices hgrown.vertices hfound.vertices
  have he := Schema.grewBy_iff hids hgrown.edges hfound.edges
  rw [← spread_iff_lineage_iff]
  constructor
  · exact fun h => ⟨hv.mp (h .vertex), he.mp (h .edge)⟩
  · rintro ⟨hspread, hcrossed⟩ e
    cases e with
    | vertex => exact hv.mpr hspread
    | edge => exact he.mpr hcrossed

end Environment

/-! ## Two edges to one parent -/

namespace SmallWorld

/-- Two children of one parent. -/
def fork : List (String × String × String) := [("e1", "a", "c"), ("e2", "b", "c")]

/-- A world of two edges to one parent, with one of the children in `src`. -/
def forked : Store :=
  holding (environment.schema.listing [] ["a", "b", "c"]) (edgeRows fork) (["a"], []) ([], [])

theorem forked_vertices :
    environment.schema.ListsOnce forked.database (tables "src").vertices (· = .text "a") :=
  ⟨[.text "a"], holding_lists_src_vertices .., by simp, by simp⟩

theorem forked_edges :
    environment.schema.ListsOnce forked.database (tables "src").edges fun _ => False :=
  ⟨[], holding_lists_src_edges .., by simp, by simp⟩

theorem forked_src : environment.Holds forked.database (.named "src") .vertex [.text "a"] :=
  holding_src_vertices ..

theorem forked_resolves : environment.resolve (.named "src") = .ok (tables "src") :=
  resolve_eq (by simp)

theorem forked_base :
    environment.Holds forked.database .base .edge (fork.map fun edge => .text edge.1) :=
  holding_base_edges ..

theorem forked_hasEdgeTable : environment.HasEdgeTable forked.database :=
  ⟨_, holding_edgeTable .., edgeRows_isEdgeTable fork⟩

theorem forked_hasEdge : environment.HasEdge forked.database .base = (· ∈ fork.map arc) :=
  holding_hasEdge ..

theorem forked_canScratch : forked.CanScratch := holding_canScratch ..

theorem forked_fresh : environment.Fresh forked.database "out" (tables "out") := holding_fresh_out ..

theorem leads_fork_iff {u v : Value} : Leads (· ∈ fork.map arc) .ancestor u v ↔
    (u = .text "a" ∨ u = .text "b") ∧ v = .text "c" := by
  constructor
  · rintro ⟨a, ha, rfl, rfl, _⟩
    obtain rfl | rfl : a = arc ("e1", "a", "c") ∨ a = arc ("e2", "b", "c") := by simpa [fork] using ha
    · exact ⟨.inl rfl, rfl⟩
    · exact ⟨.inr rfl, rfl⟩
  · rintro ⟨rfl | rfl, rfl⟩
    · exact leads_arc (show ("e1", "a", "c") ∈ fork by simp [fork])
    · exact leads_arc (show ("e2", "b", "c") ∈ fork by simp [fork])

/-- Over the parent the search comes to the other child. -/
theorem spread_fork :
    Spread (· ∈ fork.map arc) (· = .text "a") 1 Direction.both.ways (.text "b") := by
  have hup : Leads (· ∈ fork.map arc) .ancestor (.text "a") (.text "c") :=
    leads_fork_iff.mpr ⟨.inl rfl, rfl⟩
  have hdown : Leads (· ∈ fork.map arc) .descendant (.text "c") (.text "b") :=
    leads_descendant_iff.mpr (leads_fork_iff.mpr ⟨.inr rfl, rfl⟩)
  have hparent : InLineage (· ∈ fork.map arc) [.ancestor] (· = .text "a") 1 (.text "c") :=
    inLineage_singleton.mpr (Within.snoc (u := .text "a") (Within.zero_iff.mpr rfl) hup)
  exact spread_both_iff.mpr (.inr (inLineage_singleton.mpr ((Within.zero_iff.mpr hparent).snoc hdown)))

theorem not_inLineage_fork :
    ¬ InLineage (· ∈ fork.map arc) Direction.both.ways (· = .text "a") 1 (.text "b") := by
  simp only [InLineage, Direction.ways, Within.succ_iff, Within.zero_iff, List.mem_cons,
    List.not_mem_nil, or_false, exists_eq_or_imp, exists_eq_left, leads_descendant_iff, leads_fork_iff]
  decide

theorem sorted : environment.Sorted := environment_apart.sorted ownTables

/-- `src` grows in place. -/
def growInPlace (x : Expansion) : Instruction := x.instruction (.named "src") .base (.named "src")

/-- What is found from `src` comes to `out`. -/
def growElsewhere (x : Expansion) : Instruction :=
  x.instruction (.named "out") .base (.named "src")

/-- Along a single way `src` grows by what `out` would get. -/
theorem lineage_inPlace_iff_forked :
    environment.schema.GrewBy (tables "src").vertices (tables "out").vertices forked.database
        (environment.issue forked (growInPlace (.lineage 2 .ancestor))).database
        (environment.issue forked (growElsewhere (.lineage 2 .ancestor))).database ∧
      environment.schema.GrewBy (tables "src").edges (tables "out").edges forked.database
        (environment.issue forked (growInPlace (.lineage 2 .ancestor))).database
        (environment.issue forked (growElsewhere (.lineage 2 .ancestor))).database := by
  have hgrew := (Environment.lineage_inPlace_iff sorted forked_canScratch forked_resolves
    forked_hasEdgeTable forked_base forked_vertices (by simp) forked_edges (by simp) forked_fresh
    forked_src (by simp)
    (.lineage 2 .ancestor)).2.2.mpr fun hboth => absurd hboth (by decide)
  exact ⟨hgrew .vertex, hgrew .edge⟩

/-- Along both ways it does not: the other child is a descendant of the parent of the first. -/
theorem not_grewBy_forked :
    ¬ environment.schema.GrewBy (tables "src").vertices (tables "out").vertices forked.database
      (environment.issue forked (growInPlace (.lineage 1 .both))).database
      (environment.issue forked (growElsewhere (.lineage 1 .both))).database := by
  let x : Expansion := .lineage 1 .both
  obtain ⟨_, hgrown⟩ := Environment.outcome_of_wp (x.run_instruction ..)
    (Environment.wp_lineage_inPlace sorted forked_canScratch forked_resolves forked_hasEdgeTable
      forked_base forked_vertices (by simp) forked_edges (by simp) x.depth x.direction)
  obtain ⟨_, hfound⟩ := Environment.outcome_of_wp (x.run_instruction ..)
    (Environment.wp_lineage forked_canScratch forked_fresh forked_hasEdgeTable forked_base forked_src
      (by simp) x.depth x.direction)
  intro hgrew
  obtain hstart | hreached := ((Schema.grewBy_iff forked_vertices hgrown.vertices
    hfound.vertices).mp hgrew (.text "b")).mp (forked_hasEdge ▸ spread_fork)
  · simp at hstart
  · simp only [forked_hasEdge, List.mem_singleton] at hreached
    exact not_inLineage_fork hreached

end SmallWorld
end Provenance
