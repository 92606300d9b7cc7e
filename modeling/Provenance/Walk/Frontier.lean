-- SUMMARY: Frontiers of searches, advanced until nothing new is reached.
import Provenance.Value
import Provenance.Direction

/-!
# Frontiers

A search keeps the vertices reached last and all reached so far. A vertex already reached never
becomes current again, so a search over finitely many edges comes to an empty frontier, and it stops
there: the bound on its steps is not a cost.
-/
namespace Provenance

/-- An edge as a search sees it. -/
structure Arc where
  id : Value
  child : Value
  parent : Value
  deriving DecidableEq

namespace Arc

/-- The end of the edge from which a way sets out. -/
def near (a : Arc) : Way → Value
  | .ancestor => a.child
  | .descendant => a.parent

/-- The end at which a way arrives. -/
def far (a : Arc) : Way → Value
  | .ancestor => a.parent
  | .descendant => a.child

/-- The edges whose ends both lie in a set of vertices. -/
def within (arcs : List Arc) (vs : List Value) : List Arc :=
  arcs.filter fun a => a.child.memberOf vs && a.parent.memberOf vs

end Arc

structure Frontier where
  current : List Value
  reached : List Value
  deriving DecidableEq

namespace Frontier

/-- The search that has reached the given vertices and taken no step. -/
def start (vs : List Value) : Frontier := ⟨Value.groups vs, Value.groups vs⟩

/-- Of the vertices arrived at, those not reached before become current. -/
def advance (f : Frontier) (arrived : List Value) : Frontier :=
  let current := Value.groups (arrived.filter (·.absentFrom f.reached))
  ⟨current, f.reached ++ current⟩

/-- The edges that can be taken from the current vertices. -/
def exits (f : Frontier) (way : Way) (arcs : List Arc) : List Arc :=
  arcs.filter fun a => (a.near way).memberOf f.current

/-- One step along a way over all edges. -/
def step (f : Frontier) (way : Way) (arcs : List Arc) : Frontier :=
  f.advance ((f.exits way arcs).map (·.far way))

/-- At most `n` steps along a way, with the ids of the edges taken. -/
def explore (way : Way) (arcs : List Arc) : Nat → Frontier → List Value → Frontier × List Value
  | 0, f, crossed => (f, crossed)
  | n + 1, f, crossed =>
    let crossed := crossed ++ (f.exits way arcs).map (·.id)
    let f := f.step way arcs
    if f.current.isEmpty then (f, crossed) else explore way arcs n f crossed

end Frontier
end Provenance
