-- SUMMARY: Instructions for lineage, short paths, all paths and links.
import Provenance.Instruction.Structure
import Provenance.Walk.Shortest

/-!
# Lineage and paths

Instructions that search a graph from given vertices: everything reached within a number of steps, and
what lies between two sets of vertices. What they find is added to the target, ids it holds already
aside.

The statements that create scratch tables, read the given graphs and write the target are programs. The
steps of a search between them are functions on lists: they only move rows between scratch tables, so
a search that an engine breaks off between two steps is no run here. What a step can be refused for is
tested before the first one: the steps of the second search for paths are given the budget, which the
engine takes only if 64 bits hold it.
-/
namespace Provenance.Environment

/-- The edges of a graph, unless no step is to be taken. -/
def arcsFor (env : Environment) (table? : Option String) (steps : Nat) : Program (List Arc) :=
  if steps = 0 then pure [] else Program.query fun db => env.arcs db table?

/-- The ids in a table, as a search begins with them. -/
def seeds (env : Environment) (table : String) : Program (List Value) :=
  Program.query fun db => return (env.schema.scratchIds (← env.schema.ids db table).values).values

/-- The ids in a table that are among some vertices, as a search goes on with them. They are compared
as the table has them. -/
def seedsAmong (env : Environment) (table : String) : Program (List Value → List Value) :=
  Program.query fun db => do
    let ids ← env.schema.ids db table
    return fun vs => (env.schema.scratchIds (ids.within (env.schema.scratchIds vs)).values).values

/-- Adds what lies within a number of steps of the start along one way. -/
def lineageAlong (env : Environment) (request : Nat) (target : TablePair) (edges? : Option String)
    (start : String) (steps : Nat) (way : Way) : Program Unit := do
  ["cur", "next", "answer", "answer_edge"].forM (Program.createScratch request)
  let seeds ← env.seeds start
  let arcs ← env.arcsFor edges? steps
  let (f, crossed) := Frontier.explore way arcs steps (.start seeds) []
  env.schema.insertNewIds target.vertices fun _ => return env.schema.scratchIds f.reached
  env.schema.insertNewIds target.edges fun _ => return env.schema.scratchIds crossed

/-- Adds what lies within `depth` steps of the start. The two ways of a direction are searched one
after the other, and each begins with the start as it then is. -/
def lineage (env : Environment) (target subject start : GraphRef) (depth : Int)
    (direction : Direction) : Program Unit := do
  let target ← env.writable target
  if depth < 0 then throw (.negative .depth depth)
  let edges? ← env.restriction? subject .edge
  let start ← env.resolve start
  Program.withScratch ["cur", "next", "answer", "answer_edge"] fun request =>
    direction.ways.forM (env.lineageAlong request target edges? start.vertices depth.toNat)

/-- Adds the vertices, their neighbours, and the edges between. -/
def adjacent (env : Environment) (target subject source : GraphRef) (direction : Direction) :
    Program Unit :=
  env.lineage target subject source 1 direction

/-- The graphs that a path instruction is about. -/
structure PathTables where
  edges? : Option String
  sources : String
  destinations : String

def pathTables (env : Environment) (subject src dst : GraphRef) : Except Error PathTables := do
  let edges? ← env.restriction? subject .edge
  let src ← env.resolve src
  let dst ← env.resolve dst
  return ⟨edges?, src.vertices, dst.vertices⟩

/-- Adds short directed paths. Of the edges that fit the budget, one for each vertex and destination
is followed; then all edges between the vertices found are added. -/
def shortestPath (env : Environment) (target subject src dst : GraphRef) (maxDepth : Int) :
    Program Unit := do
  let target ← env.writable target
  if maxDepth < 0 then throw (.negative .maxDepth maxDepth)
  let tables ← env.pathTables subject src dst
  let tagColumns := [env.schema.idColumn, "reaching"].eraseDups
  Program.withScratch ["conn", "relation", "cur", "next", "answer", "rcur", "rnext"]
      fun request => do
    Program.createScratch request "conn"
    let arcs ← Program.query fun db => env.arcs db tables.edges?
    Program.createScratch request "relation"
    if !Name.allDistinct tagColumns then throw .statementFailed
    ["rcur", "rnext", "answer"].forM (Program.createScratch request)
    let destinations ← env.seeds tables.destinations
    ["cur", "next"].forM (Program.createScratch request)
    let sources ← env.seedsAmong tables.sources
    if !Number.inWord maxDepth then throw .parameterTooLarge
    let merged := tagColumns.length = 1
    let vs := Shortest.vertices merged arcs sources destinations maxDepth.toNat
    env.schema.insertNewIds target.vertices fun _ => return env.schema.scratchIds vs
    env.schema.insertNewIds target.edges fun db => env.edgesWithin db tables.edges? vs

/-- Adds all directed paths within the budget. -/
def simplePath (env : Environment) (target subject src dst : GraphRef) (maxDepth : Int) :
    Program Unit := do
  let target ← env.writable target
  if maxDepth < 0 then throw (.negative .maxDepth maxDepth)
  let tables ← env.pathTables subject src dst
  Program.withScratch ["relation", "cur", "next", "answer"] fun request => do
    ["relation", "cur", "next", "answer"].forM (Program.createScratch request)
    let destinations ← env.seeds tables.destinations
    let arcs ← env.arcsFor tables.edges? maxDepth.toNat
    let sources ← env.seedsAmong tables.sources
    if !Number.inWord maxDepth then throw .parameterTooLarge
    let (f, stages) := directedWalks arcs sources destinations maxDepth.toNat
    stages.forM fun stage =>
      env.schema.insertNewIds target.edges fun _ => return env.schema.scratchIds (stage.edges arcs)
    env.schema.insertNewIds target.vertices fun _ => return env.schema.scratchIds f.reached

/-- Adds what connects two sets of vertices regardless of the direction of edges. -/
def link (env : Environment) (target subject src dst : GraphRef) (maxDepth : Int) :
    Program Unit := do
  let target ← env.writable target
  if maxDepth ≤ 0 then return
  let budget := maxDepth.toNat - 1
  let tables ← env.pathTables subject src dst
  Program.withScratch ["relation", "cur", "next", "answer"] fun request => do
    ["relation", "cur", "next", "answer"].forM (Program.createScratch request)
    let destinations ← env.seeds tables.destinations
    let arcs ← env.arcsFor tables.edges? budget
    let sources ← env.seedsAmong tables.sources
    if !Number.inWord (maxDepth - 1) then throw .parameterTooLarge
    let vs := (undirectedWalks arcs sources destinations budget).reached
    env.schema.insertNewIds target.vertices fun _ => return env.schema.scratchIds vs
    env.schema.insertNewIds target.edges fun db => env.edgesWithin db tables.edges? vs

end Provenance.Environment
