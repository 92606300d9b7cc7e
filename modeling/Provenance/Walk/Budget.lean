-- SUMMARY: Walks within a budget, by a search back that records edges and a search forth along them.
import Provenance.Walk.Frontier

/-!
# Walks within a budget

Paths between two sets of vertices are found in two searches. The first sets out from the
destinations and records every edge it meets with the number of the step that met it. The second sets
out from the sources that were reached and takes only recorded edges, at step `i` those whose record
still fits: its number and `i` together do not exceed the budget.
-/
namespace Provenance

/-- An edge recorded by the first search: its ends and the number of the step. -/
structure Hop where
  child : Value
  parent : Value
  depth : Nat
  deriving DecidableEq

namespace Hop

def near (h : Hop) : Way → Value
  | .ancestor => h.child
  | .descendant => h.parent

def far (h : Hop) : Way → Value
  | .ancestor => h.parent
  | .descendant => h.child

end Hop

namespace Frontier

/-- One step along each of several ways. -/
def stepAll (f : Frontier) (ways : List Way) (arcs : List Arc) : Frontier :=
  f.advance (ways.flatMap fun way => (f.exits way arcs).map (·.far way))

/-- The first search: at most `n` steps, the next of which has the number `depth`. -/
def record (ways : List Way) (arcs : List Arc) :
    Nat → Nat → Frontier → List Hop → Frontier × List Hop
  | 0, _, f, hops => (f, hops)
  | n + 1, depth, f, hops =>
    let met := ways.flatMap fun way => (f.exits way arcs).map fun a => ⟨a.child, a.parent, depth⟩
    let f := f.stepAll ways arcs
    if f.current.isEmpty then (f, hops ++ met)
    else record ways arcs n (depth + 1) f (hops ++ met)

/-- The vertices that recorded edges lead to at step `taken`, within the budget. -/
def arrivals (f : Frontier) (ways : List Way) (hops : List Hop) (budget taken : Nat) : List Value :=
  ways.flatMap fun way =>
    (hops.filter fun h => (h.near way).memberOf f.current && h.depth + taken ≤ budget).map (·.far way)

/-- A step of the second search: where it set out and where it arrived. -/
structure Stage where
  left : List Value
  arrived : List Value

/-- The second search: at most `n` steps, of which `taken` were taken before. -/
def retrace (ways : List Way) (hops : List Hop) (budget : Nat) :
    Nat → Nat → Frontier → List Stage → Frontier × List Stage
  | 0, _, f, stages => (f, stages)
  | n + 1, taken, f, stages =>
    let arrived := f.arrivals ways hops budget taken
    let stages := stages ++ [⟨f.current, arrived⟩]
    let f := f.advance arrived
    if f.current.isEmpty then (f, stages)
    else retrace ways hops budget n (taken + 1) f stages

/-- The start of the second search: the sources among the vertices that the first one reached. -/
def restart (sourcesAmong : List Value → List Value) (f : Frontier) : Frontier :=
  .start (sourcesAmong f.reached)

end Frontier

/-! ## Directed and undirected walks -/

/-- The ids of the edges that a stage takes. -/
def Frontier.Stage.edges (s : Frontier.Stage) (arcs : List Arc) : List Value :=
  (arcs.filter fun a => a.child.memberOf s.left && a.parent.memberOf s.arrived).map (·.id)

/-- Both searches over directed walks from the sources to the destinations. The sources are given by
what they have in common with any vertices. -/
def directedWalks (arcs : List Arc) (sourcesAmong : List Value → List Value)
    (destinations : List Value) (budget : Nat) : Frontier × List Frontier.Stage :=
  let (back, hops) := Frontier.record [.descendant] arcs budget 1 (.start destinations) []
  Frontier.retrace [.ancestor] hops budget budget 0 (back.restart sourcesAmong) []

/-- Both searches over undirected walks. The step at which the two searches meet is taken by neither,
so the budget is one less than the length of the walks. -/
def undirectedWalks (arcs : List Arc) (sourcesAmong : List Value → List Value)
    (destinations : List Value) (budget : Nat) : Frontier :=
  let (back, hops) :=
    Frontier.record [.descendant, .ancestor] arcs budget 1 (.start destinations) []
  (Frontier.retrace [.ancestor, .descendant] hops budget budget 0
    (back.restart sourcesAmong) []).1

end Provenance
