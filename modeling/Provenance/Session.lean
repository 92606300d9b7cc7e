-- SUMMARY: An environment with its store, and the parts that are needed to build one.
import Provenance.Instruction
import Provenance.Memory.Exploration
import Provenance.Store.Query
import Provenance.Sql.Fragment
import Provenance.World

/-!
# Sessions

A session is an environment together with a store whose annotation tables hold a world. This module
also checks that the parts from which something is built are there, in the order in which they are
missed.
-/
namespace Provenance

/-! ## Parts -/

/-- A connection to a database, which may not be bound to any. -/
inductive Connection where
  | none
  | unbound
  | bound
  deriving DecidableEq

/-- Everything that a store needs. -/
def checkStore (connection : Connection) (hasSchema : Bool) (scratchStem : String) :
    Except Error Unit := do
  if connection = .none then throw (.missing .session)
  if !hasSchema then throw (.missing .schema)
  if scratchStem.isEmpty then throw (.missing .scratchName)
  if connection = .unbound then throw (.missing .boundSession)

/-- The two parts without which no instruction is carried out. -/
def checkExecutor (hasStore hasEnvironment : Bool) : Except Error Unit := do
  if !hasEnvironment then throw (.missing .environment)
  if !hasStore then throw (.missing .store)

/-- A source of one of the two kinds. A graph in memory may be left out and is then empty. -/
def Source.ofKind (kind : String) (tables : Option (Schema × Database)) (graph : Option MemoryGraph) :
    Except Error Source :=
  if kind = "sql" then
    match tables with
    | some (schema, db) => .ok (.tables schema db)
    | none => .error (.missing .tables)
  else if kind = "memory" then .ok (.graph (graph.getD (.empty none)))
  else .error (.unknownSource kind)

/-- An exploration needs a source. -/
def checkExploration (hasSource : Bool) : Except Error Unit := do
  if !hasSource then throw (.missing .source)

/-! ## Sessions -/

structure Session where
  environment : Environment
  store : Store

namespace Session

/-- The dialect of the database under a store. -/
def storeDialect : Sql.Dialect := .sqlite

/-- Where no other beginning of scratch table names is asked for. -/
def standardScratchStem : String := "provstore_tmp"

/-- A session over a world. The schema is checked first, then the store, then the environment. -/
def start (names : SchemaName → Option String) (scratchStem : String) (stem : Option String)
    (world : World) : Except Error Session := do
  let schema ← Schema.ofNames names
  checkStore .bound true scratchStem
  let environment ← Environment.create schema stem
  return ⟨environment, ← world.store schema scratchStem⟩

/-- Runs a program; the session goes on with the store that it leaves. -/
def perform {α : Type} (s : Session) (m : Program α) : Except Error α × Session :=
  let (outcome, store) := m.perform s.store
  (outcome, { s with store })

def describeExecutor (env : Environment) : String :=
  "InstructionExecutor(" ++ storeDialect.describeStore ++ ", " ++ env.describe ++ ")"

/-- What a table of ids holds, if it exists. -/
def idsOf? (s : Session) (table : String) : Option (List Value) :=
  (s.store.database.find? table).map (·.values s.environment.schema.idColumn)

/-- The ids, names and values in a metadata table, if it exists. -/
def tagsOf? (s : Session) (table : String) : Option (List (List Value)) :=
  (s.store.database.find? table).map fun t => t.rows.map fun r => metadataNames.map r.get

/-- A graph with the given elements: its handle is registered, its tables are made anew, and the given
ids that occur among the annotations are added. -/
def addGraph (s : Session) (name : Option String) (vertices edges : List String) :
    Except Error Unit × Session :=
  match s.environment.registerGraph name with
  | .error e => (.error e, s)
  | .ok (name, environment) =>
    let target := GraphRef.named name
    { s with environment }.perform do
      environment.createEmpty target
      environment.insertGiven .vertex target vertices
      environment.insertGiven .edge target edges

end Session
end Provenance
