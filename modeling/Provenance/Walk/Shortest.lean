-- SUMMARY: Short paths, by tags that go back and picks that go forth.
import Provenance.Walk.Budget

/-!
# Short paths

The first search goes back from the destinations and tags every vertex with the destination that it
reaches. The second goes forward from the sources and takes, for each vertex and tag, one edge among
the recorded ones that still fit the budget: that to the least parent.
-/
namespace Provenance

/-- A vertex and the destination that it reaches. -/
structure Tagged where
  vertex : Value
  tag : Value
  deriving DecidableEq

/-- An edge recorded with its step and the destination that it leads to. -/
structure TaggedHop where
  child : Value
  parent : Value
  tag : Value
  depth : Nat
  deriving DecidableEq

namespace Shortest

/-- The distinct pairs of ends among the edges. -/
def connections (arcs : List Arc) : List (Value × Value) :=
  (arcs.map fun a => (a.child, a.parent)).eraseDups

/-- The pairs of a tagged vertex and a connection into it. -/
def met (current : List Tagged) (connections : List (Value × Value)) :
    List (Tagged × (Value × Value)) :=
  current.flatMap fun t =>
    (connections.filter fun c => (t.vertex.equals c.2).selects).map fun c => (t, c)

/-- The tag of a vertex that was reached under `tag`. Where the id column is named like the tag
column, the two are one column and the vertex is its own tag. -/
def retag (merged : Bool) (vertex tag : Value) : Tagged := ⟨vertex, if merged then vertex else tag⟩

structure Back where
  current : List Tagged
  reached : List Value
  hops : List TaggedHop

def Back.start (destinations : List Value) : Back :=
  let vs := Value.groups destinations
  ⟨vs.map fun v => ⟨v, v⟩, vs, []⟩

/-- The first search: at most `n` steps, the next of which has the number `depth`. -/
def back (merged : Bool) (connections : List (Value × Value)) : Nat → Nat → Back → Back
  | 0, _, b => b
  | n + 1, depth, b =>
    let steps := met b.current connections
    let hops := b.hops ++ steps.map fun s => ⟨s.2.1, s.2.2, s.1.tag, depth⟩
    let arrived := steps.map fun s => retag merged s.2.1 s.1.tag
    let current := (arrived.filter (·.vertex.absentFrom b.reached)).eraseDups
    let b : Back := ⟨current, b.reached ++ Value.groups (current.map (·.vertex)), hops⟩
    if current.isEmpty then b else back merged connections n (depth + 1) b

/-- For each vertex and tag the least parent among the recorded edges that fit. -/
def choices (f : Frontier) (hops : List TaggedHop) (budget taken : Nat) : List Value :=
  let fitting := hops.filter fun h => h.child.memberOf f.current && h.depth + taken ≤ budget
  let keys := (fitting.map fun h => (h.child, h.tag)).eraseDups
  keys.map fun key =>
    Value.least ((fitting.filter fun h => (h.child, h.tag) = key).map (·.parent))

/-- The second search: at most `n` steps, of which `taken` were taken before. -/
def forward (hops : List TaggedHop) (budget : Nat) : Nat → Nat → Frontier → Frontier
  | 0, _, f => f
  | n + 1, taken, f =>
    let f := f.advance (choices f hops budget taken)
    if f.current.isEmpty then f else forward hops budget n (taken + 1) f

/-- The vertices that both searches leave. -/
def vertices (merged : Bool) (arcs : List Arc) (sourcesAmong : List Value → List Value)
    (destinations : List Value) (budget : Nat) : List Value :=
  let b := back merged (connections arcs) budget 1 (.start destinations)
  (forward b.hops budget budget 0 (.start (sourcesAmong b.reached))).reached

end Shortest
end Provenance
