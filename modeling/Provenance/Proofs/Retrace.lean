-- SUMMARY: Searching forth along the edges that a search back has recorded.
import Provenance.Proofs.GraphContents

/-!
# Searching back and forth

The first search goes back from the destinations, and its step numbers are distances: an edge is
recorded with one more than the distance of the end at which it was met. The second search may take
an edge at step `i` if some record of it fits the budget together with `i`.
-/
namespace Provenance

namespace Frontier

variable {back ways : List Way} {arcs : List Arc} {D : List Value} {n : Nat}

theorem Hop.near_eq (a : Arc) (d : Nat) (way : Way) :
    (Hop.mk a.child a.parent d).near way = a.near way := by
  cases way <;> rfl

theorem Hop.far_eq (a : Arc) (d : Nat) (way : Way) :
    (Hop.mk a.child a.parent d).far way = a.far way := by
  cases way <;> rfl

/-! ## The first search -/

section Record

variable (hnull : .null ∉ D)

include hnull

theorem mem_reached_record (v : Value) :
    v ∈ (record back arcs n 1 (.start D) []).1.reached ↔
      Within (LeadsAny (· ∈ arcs) back) (· ∈ D) n v := by
  have hlayers : Layers (fun _ f => f.reach back arcs) (At (LeadsAny (· ∈ arcs) back) (· ∈ D)) :=
    layers_at hnull
  have hstart : (start D).Shows (At (LeadsAny (· ∈ arcs) back) (· ∈ D)) 0 :=
    shows_start fun v => At.zero_iff.symm
  rw [record_eq_sweep back arcs n 0, mem_reached_sweep hlayers hstart, Nat.zero_add,
    ← Within.iff_exists_at]

/-- An edge is recorded where one of its ends is met. -/
theorem mem_hops_record (h : Hop) :
    h ∈ (record back arcs n 1 (.start D) []).2 ↔
      ∃ j < n, ∃ way ∈ back, ∃ a ∈ arcs, At (LeadsAny (· ∈ arcs) back) (· ∈ D) j (a.near way) ∧
        ⟨a.child, a.parent, j + 1⟩ = h := by
  let C := At (LeadsAny (· ∈ arcs) back) (· ∈ D)
  have hlayers : Layers (fun _ f => f.reach back arcs) C := layers_at hnull
  have hstart : (start D).Shows C 0 := shows_start fun v => At.zero_iff.symm
  have hnotes {i : Nat} {f : Frontier} (hf : f.Shows C i) (h : Hop) :
      (h ∈ back.flatMap fun way => (f.exits way arcs).map fun a => ⟨a.child, a.parent, i + 1⟩) ↔
        ∃ way ∈ back, ∃ a ∈ arcs, C i (a.near way) ∧ ⟨a.child, a.parent, i + 1⟩ = h := by
    simp only [List.mem_flatMap, List.mem_map, mem_exits, hf.current]
    constructor
    · exact fun ⟨way, hway, a, ⟨ha, _, hat⟩, hh⟩ => ⟨way, hway, a, ha, hat, hh⟩
    · exact fun ⟨way, hway, a, ha, hat, hh⟩ => ⟨way, hway, a, ⟨ha, hlayers.ne_null hat, hat⟩, hh⟩
  -- an edge is recorded at a layer only if some vertex is in it
  have hlayer {i : Nat} {h : Hop}
      (hh : ∃ way ∈ back, ∃ a ∈ arcs, C i (a.near way) ∧ ⟨a.child, a.parent, i + 1⟩ = h) :
      ∃ v, C i v := by
    obtain ⟨_, _, _, _, hat, _⟩ := hh
    exact ⟨_, hat⟩
  rw [record_eq_sweep back arcs n 0, mem_notes_sweep hlayers hnotes hlayer hstart]
  simp only [List.not_mem_nil, false_or, Nat.zero_le, true_and, Nat.zero_add, C]

end Record

/-! ## The second search -/

theorem mem_arrivals {f : Frontier} {hops : List Hop} {budget taken : Nat} {v : Value} :
    v ∈ f.arrivals ways hops budget taken ↔ ∃ way ∈ ways, ∃ h ∈ hops,
      h.near way ≠ .null ∧ h.near way ∈ f.current ∧ h.depth + taken ≤ budget ∧ h.far way = v := by
  simp [arrivals, Value.memberOf_iff, and_assoc]

theorem arrivals_of_idle {hops : List Hop} {budget i : Nat} {f : Frontier} (h : f.current = []) :
    f.arrivals ways hops budget i = [] := by
  rw [List.eq_nil_iff_forall_not_mem]
  intro v hv
  obtain ⟨_, _, _, _, _, hcur, _⟩ := mem_arrivals.mp hv
  simp [h] at hcur

/-- From the current vertices the second search goes along the edges that were met close enough to
the destinations. -/
theorem mem_arrivals_record (hnull : .null ∉ D) {f : Frontier} {budget taken : Nat} {v : Value} :
    v ∈ f.arrivals ways (record back arcs budget 1 (.start D) []).2 budget taken ↔
      ∃ way ∈ ways, ∃ a ∈ arcs, a.near way ≠ .null ∧ a.near way ∈ f.current ∧ a.far way = v ∧
        ∃ way' ∈ back, ∃ j, j + 1 + taken ≤ budget ∧
          At (LeadsAny (· ∈ arcs) back) (· ∈ D) j (a.near way') := by
  simp only [mem_arrivals, mem_hops_record hnull]
  constructor
  · rintro ⟨way, hway, _, ⟨j, _, way', hway', a, ha, hat, rfl⟩, hn, hcur, hfit, hfar⟩
    rw [Hop.near_eq] at hn hcur
    rw [Hop.far_eq] at hfar
    exact ⟨way, hway, a, ha, hn, hcur, hfar, way', hway', j, hfit, hat⟩
  · rintro ⟨way, hway, a, ha, hn, hcur, hfar, way', hway', j, hfit, hat⟩
    refine ⟨way, hway, _, ⟨j, by omega, way', hway', a, ha, hat, rfl⟩, ?_⟩
    rw [Hop.near_eq, Hop.far_eq]
    exact ⟨hn, hcur, hfit, hfar⟩

end Frontier

/-! ## Path instructions -/

namespace Environment

variable {env : Environment} {db : Database} {subject src dst : GraphRef} {es S D : List Value}

theorem exists_pathTables (hsubject : env.Holds db subject .edge es)
    (hsrc : env.Holds db src .vertex S) (hdst : env.Holds db dst .vertex D) :
    ∃ paths, env.pathTables subject src dst = .ok paths ∧
      env.restriction? subject .edge = .ok paths.edges? ∧
      env.schema.Lists db paths.sources S ∧
      env.schema.Lists db paths.destinations D := by
  obtain ⟨edges?, hscope, _⟩ := hsubject.restriction?
  obtain ⟨sources, hs, hS⟩ := hsrc
  obtain ⟨destinations, hd, hD⟩ := hdst
  exact ⟨⟨edges?, sources.vertices, destinations.vertices⟩, by simp [pathTables, hscope, hs, hd],
    hscope, hS, hD⟩

/-- Searches reach values in the form in which ids are kept. -/
theorem keeps_record {arcs : List Arc} (hedges : env.HasEdgeTable db)
    (harcs : ∀ a ∈ arcs, env.HasEdge db subject a) (hkeeps : env.schema.idAffinity.Keeps D)
    (hD : .null ∉ D) (back : List Way) (n : Nat) :
    env.schema.idAffinity.Keeps (Frontier.record back arcs n 1 (.start D) []).1.reached := by
  intro v hv
  exact hedges.keeps_of_within harcs hkeeps ((Frontier.mem_reached_record hD v).mp hv)

end Environment
end Provenance
