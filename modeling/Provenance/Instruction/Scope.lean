-- SUMMARY: The rows that an instruction sees of the annotation tables within a graph.
import Provenance.Registry
import Provenance.Store
import Provenance.Walk.Frontier

/-!
# What an instruction reads

The base graph is read straight from the annotation tables. Any other graph restricts them to the rows
whose ids its tables hold.
-/
namespace Provenance

/-- The table of vertices or of edges. -/
def TablePair.part (tables : TablePair) : Element → String
  | .vertex => tables.vertices
  | .edge => tables.edges

namespace Environment

/-- The table that restricts the annotation rows of a graph; the base graph has none. -/
def restriction? (env : Environment) (graph : GraphRef) (e : Element) :
    Except Error (Option String) :=
  match graph with
  | .base => .ok none
  | .named name => return some ((← env.resolve (.named name)).part e)

/-- The rows of a table whose ids the restricting table holds; all of them without one. -/
def restrict (env : Environment) (db : Database) (t : Table) (table? : Option String) :
    Except Error (List Row) :=
  match table? with
  | none => .ok t.rows
  | some table => do
    if !t.has env.schema.idColumn then throw .statementFailed
    return t.rowsWithin env.schema.idColumn (← env.schema.ids db table)

/-- The annotation rows in the scope of a graph. The table must have the given columns. -/
def rowsInScope (env : Environment) (db : Database) (e : Element) (table? : Option String)
    (columns : List String) : Except Error (List Row) := do
  env.restrict db (← db.tableWith (env.schema.annotationTable e) columns) table?

/-- The edges of a graph, as searches see them: ids and endpoints in the form in which scratch tables
keep them. -/
def arcs (env : Environment) (db : Database) (table? : Option String) : Except Error (List Arc) := do
  let s := env.schema
  let rows ← env.rowsInScope db .edge table? s.reserved
  let cell (r : Row) (column : String) : Value := s.idAffinity.store (r.get column)
  return rows.map fun r => ⟨cell r s.idColumn, cell r s.childColumn, cell r s.parentColumn⟩

/-- The columns of an annotation table. -/
def annotationColumns (env : Environment) (e : Element) : Program (List String) :=
  Program.query fun db => db.columnNames (env.schema.annotationTable e)

end Environment
end Provenance
