-- SUMMARY: Graphs in memory with recorded depths and network vertices.
import Provenance.Elements
import Provenance.Direction
import Provenance.Statistic.Aggregate

/-!
# Graphs in memory

The result of a search that goes vertex by vertex. Elements keep the order in which they were added.
A vertex added again gains annotations, an edge added again changes nothing, and an edge brings
its endpoints with it. Depths and network depths are the least ones given.
-/
namespace Provenance

/-! ## Least depths -/

/-- The least depth recorded for each id. -/
structure Depths where
  entries : List (String × Int)
  deriving DecidableEq

namespace Depths

def empty : Depths := ⟨[]⟩

def get? (d : Depths) (id : String) : Option Int := d.entries.lookup id

/-- Records a depth, unless one as small is known. -/
def lower (d : Depths) (id : String) (depth : Int) : Depths :=
  match d.get? id with
  | none => ⟨d.entries ++ [(id, depth)]⟩
  | some known =>
    if depth < known then
      ⟨d.entries.map fun entry => if entry.1 = id then (id, depth) else entry⟩
    else d

end Depths

/-! ## Graphs -/

structure MemoryGraph where
  vertices : List Vertex
  edges : List Edge
  depths : Depths
  network : Depths
  root : Option String
  maxDepth : Option Int
  computed : Bool
  deriving DecidableEq

namespace MemoryGraph

def empty (maxDepth : Option Int) : MemoryGraph := ⟨[], [], .empty, .empty, none, maxDepth, false⟩

def findVertex? (g : MemoryGraph) (id : String) : Option Vertex := g.vertices.find? (·.id = id)

def findEdge? (g : MemoryGraph) (id : String) : Option Edge := g.edges.find? (·.id = id)

def hasVertex (g : MemoryGraph) (id : String) : Bool := (g.findVertex? id).isSome

def hasEdge (g : MemoryGraph) (id : String) : Bool := (g.findEdge? id).isSome

def vertex (g : MemoryGraph) (id : String) : Except Error Vertex :=
  match g.findVertex? id with
  | some v => .ok v
  | none => .error (.noVertex id)

def edge (g : MemoryGraph) (id : String) : Except Error Edge :=
  match g.findEdge? id with
  | some e => .ok e
  | none => .error (.noEdge id)

def depth? (g : MemoryGraph) (id : String) : Option Int := g.depths.get? id

/-! ## Growth -/

/-- The vertex, or for a known one its annotations overlaid by the new ones. -/
def insertVertex (g : MemoryGraph) (v : Vertex) : MemoryGraph :=
  if g.hasVertex v.id then
    { g with vertices := g.vertices.map fun w =>
        if w.id = v.id then ⟨w.id, w.annotations.merge v.annotations⟩ else w }
  else { g with vertices := g.vertices ++ [v] }

/-- Adds a vertex, reached at the given depth if there is one. -/
def addVertex (g : MemoryGraph) (v : Vertex) (depth : Option Int) : MemoryGraph :=
  let g := g.insertVertex v
  match depth with
  | none => g
  | some depth => { g with depths := g.depths.lower v.id depth }

/-- An endpoint that is not known yet becomes a vertex without annotations. -/
def addEndpoint (g : MemoryGraph) (id : String) : MemoryGraph :=
  if g.hasVertex id then g else g.addVertex ⟨id, .empty⟩ none

def addEdge (g : MemoryGraph) (e : Edge) : MemoryGraph :=
  if g.hasEdge e.id then g
  else
    let g := (g.addEndpoint e.child).addEndpoint e.parent
    { g with edges := g.edges ++ [e] }

/-- Adds a vertex that has to be resolved on the host it stands for. -/
def putNetwork (g : MemoryGraph) (v : Vertex) (depth : Int) : MemoryGraph :=
  let g := g.addVertex v none
  { g with network := g.network.lower v.id depth }

/-- The graph that is built by adding vertices and then edges, none of them at a depth. -/
def ofElements (vs : List Vertex) (es : List Edge) : MemoryGraph :=
  es.foldl addEdge (vs.foldl (fun g v => g.addVertex v none) (empty none))

/-- The union of two graphs. The root stays, if there is one. -/
def merge (g other : MemoryGraph) : MemoryGraph :=
  let g := other.vertices.foldl (fun g v => g.addVertex v (other.depth? v.id)) g
  let g := other.edges.foldl addEdge g
  let g := other.network.entries.foldl
    (fun g entry => g.putNetwork ((other.findVertex? entry.1).getD ⟨entry.1, .empty⟩) entry.2) g
  { g with root := g.root.or other.root }

def markComputed (g : MemoryGraph) : MemoryGraph := { g with computed := true }

/-! ## Neighbours -/

/-- The known vertices among ids, each once. -/
def verticesOf (g : MemoryGraph) (ids : List String) : List Vertex :=
  ids.eraseDups.filterMap g.findVertex?

/-- The vertices that the edges of a vertex point to. -/
def parents (g : MemoryGraph) (id : String) : Except Error (List Vertex) := do
  let v ← g.vertex id
  return g.verticesOf ((g.edges.filter (·.child = v.id)).map (·.parent))

/-- The vertices whose edges point to a vertex. -/
def children (g : MemoryGraph) (id : String) : Except Error (List Vertex) := do
  let v ← g.vertex id
  return g.verticesOf ((g.edges.filter (·.parent = v.id)).map (·.child))

def edgesBetween (g : MemoryGraph) (child parent : String) : List Edge :=
  g.edges.filter fun e => e.child = child && e.parent = parent

/-! ## Description -/

/-- The vertices still to be resolved elsewhere make the result incomplete. -/
def needsRemote (g : MemoryGraph) : Bool := !g.network.entries.isEmpty

/-- Counted values in ascending order of their counts, then of the values, the absent one last. -/
def countedBefore (a b : Option String × Nat) : Bool :=
  a.2 < b.2 || (a.2 = b.2 &&
    match a.1, b.1 with
    | _, none => true
    | none, some _ => false
    | some s, some t => s ≤ t)

/-- The value of a key for each element; an element without the key has none. -/
def valuesOf (g : MemoryGraph) (key : String) : Element → List (Option String)
  | .vertex => g.vertices.map (·.get? key)
  | .edge => g.edges.map (·.get? key)

/-- How often each value of a key occurs. Elements without the key are counted as well. -/
def histogram (g : MemoryGraph) (key : String) (e : Element) : Histogram :=
  let values := g.valuesOf key e
  let counted := values.eraseDups.map fun v => (v, values.count v)
  .ofCounts (counted.mergeSort countedBefore)

def describe (g : MemoryGraph) : String :=
  "LineageGraph(root=" ++ Text.quotedOrNone g.root ++ ", vertices=" ++ toString g.vertices.length ++
    ", edges=" ++ toString g.edges.length ++ ", max_depth=" ++
    ((g.maxDepth.map toString).getD "None") ++ ")"

end MemoryGraph
end Provenance
