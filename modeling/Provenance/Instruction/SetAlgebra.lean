-- SUMMARY: Instructions that combine the id sets of graphs.
import Provenance.Instruction.Scope

/-!
# Set algebra on graphs

Instructions that fill a target from the id sets of other graphs: copies without repetition, unions,
intersections, differences, and the least ids up to a limit. Union alone looks at what the target
already holds; the others add to it whatever they select.
-/
namespace Provenance.Environment

/-- The same statement for vertices and then for edges. -/
def forBoth (statement : Element → Program Unit) : Program Unit := do
  statement .vertex
  statement .edge

/-- Makes the tables of a graph anew, without ids. -/
def createEmpty (env : Environment) (target : GraphRef) : Program Unit := do
  let target ← env.writable target
  forBoth fun e => Program.createTable (target.part e) env.schema.idColumns true

/-- Adds the ids of a graph, each once. -/
def distinctify (env : Environment) (target source : GraphRef) : Program Unit := do
  let target ← env.writable target
  let source ← env.resolve source
  forBoth fun e => env.schema.insertIds (target.part e) fun db =>
    return Value.groups (← env.schema.ids db (source.part e)).values

/-- Adds the ids of a graph that the target does not hold yet. -/
def union (env : Environment) (target source : GraphRef) : Program Unit := do
  let target ← env.writable target
  let source ← env.resolve source
  forBoth fun e => env.schema.insertNewIds (target.part e) fun db =>
    env.schema.ids db (source.part e)

/-- Adds the ids that two graphs share. -/
def intersect (env : Environment) (target lhs rhs : GraphRef) : Program Unit := do
  let target ← env.writable target
  let lhs ← env.resolve lhs
  let rhs ← env.resolve rhs
  forBoth fun e => env.schema.insertIds (target.part e) fun db => do
    let left ← env.schema.ids db (lhs.part e)
    let right ← env.schema.ids db (rhs.part e)
    return Value.groups (left.within right).values

/-- Adds the ids of one graph that another lacks, on the selected components. -/
def subtract (env : Environment) (target minuend subtrahend : GraphRef) (component : Component) :
    Program Unit := do
  let target ← env.writable target
  let minuend ← env.resolve minuend
  let subtrahend ← env.resolve subtrahend
  component.elements.forM fun e => env.schema.insertIds (target.part e) fun db => do
    let left ← env.schema.ids db (minuend.part e)
    let right ← env.schema.ids db (subtrahend.part e)
    return Value.groups (left.without right).values

/-- The number of rows in the vertex table and in the edge table of a graph. -/
def count (env : Environment) (graph : GraphRef) : Program (Nat × Nat) := do
  let tables ← env.resolve graph
  let vertices ← Program.query fun db => return (← db.table tables.vertices).rows.length
  let edges ← Program.query fun db => return (← db.table tables.edges).rows.length
  return (vertices, edges)

/-- Adds the least ids of a graph, at most `limit` of each kind. An empty table is not read, and a
limit that does not fit into 64 bits fails when a table is. -/
def limit (env : Environment) (target source : GraphRef) (limit : Int) : Program Unit := do
  if limit < 0 then throw (.negative .limit limit)
  let target ← env.writable target
  let (vertices, edges) ← env.count source
  let source ← env.resolve source
  forBoth fun e => do
    let size := match e with
      | .vertex => vertices
      | .edge => edges
    if size ≠ 0 then
      env.schema.insertIds (target.part e) fun db => do
        if !Number.inWord limit then throw .statementFailed
        return (Value.groups (← env.schema.ids db (source.part e)).values).take limit.toNat

end Provenance.Environment
