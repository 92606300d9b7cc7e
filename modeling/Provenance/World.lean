-- SUMMARY: Worlds of vertices and edges, and the annotation tables that they fill.
import Provenance.Store.Query

/-!
# Worlds

A world is what the annotation tables are filled from: vertices and edges with their annotations. Each
table has the reserved columns and after them one text column for every key, in ascending order. A key
that is spelled like a reserved column has no column of its own, and the reserved cell counts. An id,
an endpoint or an annotation may be null, and nothing forbids that an id occurs twice.
-/
namespace Provenance

structure WorldVertex where
  id : Value
  annotations : List (String × Value)

structure WorldEdge where
  id : Value
  child : Value
  parent : Value
  annotations : List (String × Value)

structure World where
  vertices : List WorldVertex
  edges : List WorldEdge
  vertexKeys : List String
  edgeKeys : List String

namespace World

def empty : World := ⟨[], [], [], []⟩

/-- The keys of a table in ascending order: those asked for and those that occur. -/
def keysOf (asked : List String) (annotations : List (List (String × Value))) : List String :=
  (asked ++ annotations.flatten.map (·.1)).eraseDups.mergeSort fun a b => decide (a ≤ b)

/-- The reserved columns and those of the keys. Of columns of one spelling the last type counts. -/
def columnsOf (schema : Schema) (reserved keys : List String) : List Column :=
  let columns := reserved.map (Column.mk · schema.idAffinity) ++ keys.map (Column.mk · .text)
  columns.foldl Column.declare []

/-- The cells of an element under the keys of its table. -/
def cellsOf (keys : List String) (annotations : List (String × Value)) : List Value :=
  keys.map fun key => (annotations.lookup key).getD .null

/-- Fills a store with the annotation tables. Both are created before any row is added, so of two that
share a name the second is the one that there is. -/
def load (w : World) (schema : Schema) : Program Unit := do
  let vertexKeys := keysOf w.vertexKeys (w.vertices.map (·.annotations))
  let edgeKeys := keysOf w.edgeKeys (w.edges.map (·.annotations))
  Program.createTable schema.vertexTable (columnsOf schema [schema.idColumn] vertexKeys) true
  Program.createTable schema.edgeTable (columnsOf schema schema.reserved edgeKeys) true
  Program.insertRows schema.vertexTable (schema.idColumn :: vertexKeys)
    (w.vertices.map fun v => v.id :: cellsOf vertexKeys v.annotations)
  Program.insertRows schema.edgeTable (schema.reserved ++ edgeKeys)
    (w.edges.map fun e => [e.id, e.child, e.parent] ++ cellsOf edgeKeys e.annotations)

/-- A store that holds nothing but a world. -/
def store (w : World) (schema : Schema) (scratchStem : String) : Except Error Store :=
  match (w.load schema).perform (.create .empty scratchStem) with
  | (.ok _, s) => .ok s
  | (.error e, _) => .error e

end World
end Provenance
