-- SUMMARY: Lineage built vertex by vertex from the answers of a source.
import Provenance.Memory.Source

/-!
# Exploration

Lineage built vertex by vertex from the questions that a source answers, in breadth-first order and up
to a number of hops. A vertex that has to be resolved on another host is recorded and not expanded.
-/
namespace Provenance.Source

variable [RegexLibrary]

/-- What one hop has found so far: the graph, and the ids to expand at the next hop. -/
structure Exploration where
  graph : MemoryGraph
  frontier : List String

/-- The endpoints of an edge between a vertex and its neighbour. -/
def endpointsAlong (way : Way) (id neighbour : String) : String × String :=
  match way with
  | .ancestor => (id, neighbour)
  | .descendant => (neighbour, id)

/-- The edges from a child to a parent. -/
def edgesBetween (source : Source) (child parent : String) : Except Error (List Edge) :=
  source.edges [⟨childKey, .equal, child⟩, ⟨parentKey, .equal, parent⟩]

variable (source : Source) (isRemote : Vertex → Bool)

/-- A neighbour found at a hop, with the edges to it. A remote one is recorded at the depth before the
hop; any other that was not visited is expanded next. -/
def addNeighbour (way : Way) (depth : Int) (visited : List String) (id : String) (x : Exploration)
    (neighbour : Vertex) : Except Error Exploration := do
  let graph := x.graph.addVertex neighbour (some (depth + 1))
  let x : Exploration :=
    if isRemote neighbour then { x with graph := graph.putNetwork neighbour depth }
    else if visited.contains neighbour.id then { x with graph }
    else { graph, frontier := x.frontier ++ [neighbour.id] }
  let (child, parent) := endpointsAlong way id neighbour.id
  let edges ← source.edgesBetween child parent
  return { x with graph := edges.foldl MemoryGraph.addEdge x.graph }

/-- All neighbours of one vertex. -/
def expand (way : Way) (depth : Int) (visited : List String) (x : Exploration) (id : String) :
    Except Error Exploration := do
  let neighbours ← source.neighbours way id
  neighbours.foldlM (addNeighbour source isRemote way depth visited id) x

/-- The ids in ascending order, each once. -/
def sortedIds (ids : List String) : List String :=
  ids.eraseDups.mergeSort fun a b => decide (a ≤ b)

/-- At most `n` hops from the ids that remain. -/
def hops (way : Way) : Nat → Int → List String → List String → MemoryGraph →
    Except Error MemoryGraph
  | 0, _, _, _, g => .ok g
  | n + 1, depth, remaining, visited, g => do
    if remaining.isEmpty then return g
    let visited := visited ++ remaining
    let x ← remaining.foldlM (expand source isRemote way depth visited) ⟨g, []⟩
    hops way n (depth + 1) (sortedIds x.frontier) visited x.graph

/-- The start vertices, at depth zero. -/
def seeded (start : List Vertex) (maxDepth : Int) : MemoryGraph :=
  let g := { MemoryGraph.empty (some maxDepth) with root := start.head?.map (·.id) }
  start.foldl (fun g v =>
    let g := g.addVertex v (some 0)
    if isRemote v then g.putNetwork v 0 else g) g

/-- The lineage of the start vertices along one way. -/
def traverse (start : List Vertex) (maxDepth : Int) (way : Way) : Except Error MemoryGraph :=
  let remaining := (start.filter fun v => !isRemote v).map (·.id)
  hops source isRemote way maxDepth.toNat 0 (sortedIds remaining) [] (seeded isRemote start maxDepth)

/-- The lineage of the vertices that satisfy the predicates, along all ways of a direction. -/
def lineage (predicates : List Predicate) (maxDepth : Int) (direction : Direction) :
    Except Error MemoryGraph := do
  if maxDepth < 0 then throw (.negative .maxDepth maxDepth)
  let start ← source.vertices predicates
  if start.isEmpty then throw (.noRoot predicates)
  let empty := { MemoryGraph.empty (some maxDepth) with root := start.head?.map (·.id) }
  let g ← direction.ways.foldlM
    (fun (g : MemoryGraph) way => return g.merge (← traverse source isRemote start maxDepth way)) empty
  return g.markComputed

end Provenance.Source
