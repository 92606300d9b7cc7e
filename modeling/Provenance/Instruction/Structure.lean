-- SUMMARY: Instructions for endpoints of edges, induced subgraphs and collapsed edges.
import Provenance.Instruction.Scope

/-!
# The structure of graphs

Instructions that follow edges to their endpoints, cut out the subgraph over given vertices, and keep
one edge of each group of like ones.
-/
namespace Provenance

/-- Lists of values in the order of their first difference; a beginning comes before the whole. -/
def Value.listLe : List Value → List Value → Bool
  | [], _ => true
  | _ :: _, [] => false
  | v :: vs, w :: ws => if v = w then listLe vs ws else v.le w

namespace Environment

/-- The cells of one endpoint column, for the edges of a table. -/
def endpointsIn (env : Environment) (db : Database) (table column : String) :
    Except Error Cells := do
  let t ← db.tableWith env.schema.edgeTable [column]
  return { t with rows := ← env.restrict db t (some table) }.cells column

/-- The endpoint columns that are meant. -/
def endpointColumns (env : Environment) : Endpoint → List String
  | .source => [env.schema.childColumn]
  | .destination => [env.schema.parentColumn]
  | .both => [env.schema.childColumn, env.schema.parentColumn]

/-- Adds the endpoints of a graph's edges. -/
def endpoints (env : Environment) (target subject : GraphRef) (endpoint : Endpoint) :
    Program Unit := do
  let target ← env.writable target
  let subject ← env.resolve subject
  Program.withScratch ["answer"] fun request => do
    Program.createScratch request "answer"
    let found ← (env.endpointColumns endpoint).mapM fun column =>
      Program.query fun db => return (← env.endpointsIn db subject.edges column).values
    env.schema.insertNewIds target.vertices fun _ => return env.schema.scratchIds found.flatten

/-- The ids of the edges in scope whose ends both lie in a set of vertices. -/
def edgesWithin (env : Environment) (db : Database) (table? : Option String) (vs : List Value) :
    Except Error Cells := do
  return env.schema.scratchIds ((Arc.within (← env.arcs db table?) vs).map (·.id))

/-- Adds the subgraph of `subject` over the vertices of `skeleton` and the ends of its edges. -/
def subgraph (env : Environment) (target subject skeleton : GraphRef) : Program Unit := do
  let target ← env.writable target
  let subject ← env.resolve subject
  let skeleton ← env.resolve skeleton
  Program.withScratch ["answer"] fun request => do
    Program.createScratch request "answer"
    let own ← Program.query fun db => do
      let inside ← env.schema.ids db subject.vertices
      return ((← env.schema.ids db skeleton.vertices).within inside).values
    let ends ← (env.endpointColumns .both).mapM fun column => Program.query fun db => do
      let inside ← env.schema.ids db subject.vertices
      return ((← env.endpointsIn db skeleton.edges column).within inside).values
    let answer := env.schema.scratchIds (own ++ ends.flatten)
    env.schema.insertNewIds target.vertices fun _ => return answer
    env.schema.insertNewIds target.edges fun db => do
      return (← env.schema.ids db subject.edges).within (← env.edgesWithin db none answer.values)

/-- The least id of each group of edges that agree on the columns; nulls agree with nulls. -/
def leastOfGroups (env : Environment) (rows : List Row) (columns : List String) : List Value :=
  let key (r : Row) : List Value := columns.map fun column => (r.get column).canonical
  let keys := (rows.map key).eraseDups.mergeSort Value.listLe
  keys.map fun k =>
    Value.least ((rows.filter fun r => key r = k).map (·.get env.schema.idColumn))

/-- Adds the vertices of a graph, and of its edges one for each pair of ends and values of the
fields. A field without a column splits no group. -/
def collapse (env : Environment) (target source : GraphRef) (fields : List String) :
    Program Unit := do
  let target ← env.writable target
  let existing ← env.annotationColumns .edge
  let columns := env.endpointColumns .both ++ fields.filter existing.contains
  let source ← env.resolve source
  env.schema.insertIds target.vertices fun db =>
    return Value.groups (← env.schema.ids db source.vertices).values
  env.schema.insertIds target.edges fun db => do
    if Sql.columnLimit < columns.length then throw .statementFailed
    let rows ← env.rowsInScope db .edge (some source.edges) columns
    return env.leastOfGroups rows columns

end Environment
end Provenance
