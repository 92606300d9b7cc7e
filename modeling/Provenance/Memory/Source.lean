-- SUMMARY: Sources of vertices and edges, over annotation tables and over a graph in memory.
import Provenance.Memory.Graph
import Provenance.Predicate.Values
import Provenance.Predicate.Rows
import Provenance.Instruction.Export

/-!
# Sources of elements

A source answers four questions: which vertices satisfy some predicates, which edges do, and what the
children and the parents of a vertex are. It is either the annotation tables of a database or a graph
in memory. Predicates are conjunctive, and predicates on edges may address the endpoints by keys of
their own.
-/
namespace Provenance

inductive Source where
  | tables (schema : Schema) (db : Database)
  | graph (g : MemoryGraph)

namespace Source

variable [RegexLibrary]

/-! ## Tables -/

/-- The columns that a predicate names; a wildcard names all in ascending order. Two keys of edges stand
for the endpoint columns. -/
def columnsOf (aliases : String → String) (existing : List String) (p : Predicate) : List String :=
  if p.isWildcard then existing.mergeSort fun a b => decide (a ≤ b)
  else existing.filter (· = aliases p.key)

/-- The rows that satisfy all predicates, one after the other. A predicate on a key without a column
selects nothing, unless it tests for difference. -/
def selectRows (schema : Schema) (t : Table) (aliases : String → String) (ps : List Predicate) :
    Except Error (List Row) := do
  let columns := columnsOf aliases t.names
  if ps.any fun p => (columns p).isEmpty && p.operator ≠ .notEqual then return []
  let asked := ps.filter fun p => !(columns p).isEmpty
  if Sql.depthLimit < Sql.joinedDepth (asked.map fun p => Sql.anyDepth schema (columns p)) then
    throw .statementFailed
  asked.foldlM (fun rows p => p.filterRows schema t (columns p) rows) t.rows

/-- The column behind a key of an edge predicate. -/
def edgeAlias (schema : Schema) (key : String) : String :=
  if key = childKey then schema.childColumn
  else if key = parentKey then schema.parentColumn
  else key

/-- The vertices at one end of those edges that have the given vertex at the other. -/
def neighboursIn (schema : Schema) (db : Database) (id nearColumn farColumn : String) :
    Except Error (List Vertex) := do
  let t ← db.tableWith schema.vertexTable [schema.idColumn]
  let edges ← db.tableWith schema.edgeTable [nearColumn, farColumn]
  let wanted := (edges.affinity nearColumn).store (.text id)
  let met := edges.rows.filter fun r => ((r.get nearColumn).sameAs wanted).selects
  let ends := { edges with rows := met }.cells farColumn
  return (t.rowsWithin schema.idColumn ends).map (schema.vertexOf t)

/-! ## The four questions -/

def vertices (source : Source) (ps : List Predicate) : Except Error (List Vertex) :=
  match source with
  | tables schema db => do
    let t ← db.tableWith schema.vertexTable [schema.idColumn]
    return (← selectRows schema t id ps).map (schema.vertexOf t)
  | graph g => ps.foldlM (fun vs p => p.filterElements Vertex.annotations vs) g.vertices

def edges (source : Source) (ps : List Predicate) : Except Error (List Edge) :=
  match source with
  | tables schema db => do
    let t ← db.tableWith schema.edgeTable schema.reserved
    return (← selectRows schema t (edgeAlias schema) ps).map (schema.edgeOf t)
  | graph g => ps.foldlM (fun es p => p.filterElements Edge.values es) g.edges

/-- A vertex that a graph in memory does not know has no neighbours. -/
def children (source : Source) (id : String) : Except Error (List Vertex) :=
  match source with
  | tables schema db => neighboursIn schema db id schema.parentColumn schema.childColumn
  | graph g => if g.hasVertex id then g.children id else .ok []

def parents (source : Source) (id : String) : Except Error (List Vertex) :=
  match source with
  | tables schema db => neighboursIn schema db id schema.childColumn schema.parentColumn
  | graph g => if g.hasVertex id then g.parents id else .ok []

/-- The vertices one step away. -/
def neighbours (source : Source) (way : Way) (id : String) : Except Error (List Vertex) :=
  match way with
  | .ancestor => source.parents id
  | .descendant => source.children id

def describe : Source → String
  | tables _ _ => "SQLLineageBackend(BackingStore(dialect='sqlite'))"
  | graph g => "MemoryLineageBackend(" ++ g.describe ++ ")"

end Source
end Provenance
