-- SUMMARY: A database with its scratch tables, and programs of statements on it.
import Provenance.Database
import Provenance.Direction
import Provenance.Sql.Limit
import Provenance.Store.ScratchNames

/-!
# The store

A store is a database together with the scratch tables that exist. An instruction allocates its
scratch tables under a fresh request, creates them as it needs them, and drops them when it succeeds;
after a failure they stay. What a scratch table holds is seen by its own instruction only, so the store
keeps track of the tables and not of their rows.

A `Program` runs statements against a store. A statement that fails changes nothing, and what earlier
statements wrote stays.
-/
namespace Provenance

structure ScratchTable where
  request : Nat
  role : String
  deriving DecidableEq

structure Store where
  database : Database
  /-- The beginning of the names of scratch tables. -/
  scratchStem : String
  scratch : List ScratchTable
  requests : Nat
  deriving DecidableEq

namespace Store

def create (db : Database) (scratchStem : String) : Store := ⟨db, scratchStem, [], 0⟩

/-- The name of a scratch table. -/
def scratchName (s : Store) (t : ScratchTable) : String :=
  ScratchNames.name s.scratchStem (toString t.request) t.role

/-- The roles of the scratch tables that exist, in ascending order. -/
def scratchRoles (s : Store) : List String :=
  (s.scratch.map (·.role)).mergeSort fun a b => decide (a ≤ b)

end Store

abbrev Program := ExceptT Error (StateM Store)

namespace Program

variable {α : Type}

/-- The outcome of a program and the store that it leaves. -/
def perform (m : Program α) (s : Store) : Except Error α × Store := StateT.run (ExceptT.run m) s

/-- A statement that reads. -/
def query (select : Database → Except Error α) : Program α := do
  let s ← get
  MonadExcept.ofExcept (select s.database)

/-- A statement that writes, all of it or nothing. -/
def update (write : Database → Except Error Database) : Program Unit := do
  let s ← get
  let db ← MonadExcept.ofExcept (write s.database)
  set { s with database := db }

/-! ## Scratch tables -/

def newRequest : Program Nat := modifyGet fun s => (s.requests, { s with requests := s.requests + 1 })

/-- The scratch table of a role, new or emptied. -/
def createScratch (request : Nat) (role : String) : Program Unit := do
  let s ← get
  let t : ScratchTable := ⟨request, role⟩
  if !Name.isGivable (s.scratchName t) then throw .statementFailed
  if !s.scratch.contains t then set { s with scratch := s.scratch ++ [t] }

def dropScratch (request : Nat) (roles : List String) : Program Unit := modify fun s =>
  { s with scratch := s.scratch.filter fun t => !(t.request = request && roles.contains t.role) }

/-- Runs the body with scratch tables of the given roles, which are dropped if it succeeds. -/
def withScratch (roles : List String) (body : Nat → Program α) : Program α := do
  let request ← newRequest
  let a ← body request
  dropScratch request roles
  return a

end Program

/-! ## Statements over one column -/

namespace Database

/-- The table of a name; a statement that uses any other fails. -/
def table (db : Database) (name : String) : Except Error Table :=
  match db.find? name with
  | some t => .ok t
  | none => .error .statementFailed

/-- The table of a name, which must have the columns. -/
def tableWith (db : Database) (name : String) (columns : List String) : Except Error Table := do
  let t ← db.table name
  if columns.all t.has then return t else .error .statementFailed

/-- The cells of one column. -/
def cells (db : Database) (name column : String) : Except Error Cells := do
  return (← db.tableWith name [column]).cells column

def columnNames (db : Database) (name : String) : Except Error (List String) := do
  return (← db.table name).names

/-- Rows with one cell each, added to a table. -/
def insertColumn (db : Database) (name column : String) (vs : List Value) :
    Except Error Database := do
  let t ← db.tableWith name [column]
  return db.put name (t.append (t.column column vs))

/-- A new table. Its name must be free and one that may be given, and its columns must be some, not too
many, and of distinct names. -/
def create (db : Database) (name : String) (columns : List Column) : Except Error Database :=
  let names := columns.map (·.name)
  if (db.find? name).isSome || !Name.isGivable name then .error .statementFailed
  else if columns.isEmpty || Sql.columnLimit < columns.length then .error .statementFailed
  else if !names.all Name.isWritable || !Name.allDistinct names then .error .statementFailed
  else .ok (db.put name ⟨columns, []⟩)

end Database

namespace Schema

/-- The annotation table of vertices or of edges. -/
def annotationTable (schema : Schema) : Element → String
  | .vertex => schema.vertexTable
  | .edge => schema.edgeTable

/-- The affinity of ids and endpoints. -/
def idAffinity (schema : Schema) : Affinity := .ofDeclared schema.idType

/-- The only column of a table of ids. -/
def idColumns (schema : Schema) : List Column := [⟨schema.idColumn, schema.idAffinity⟩]

/-- The ids in a table. -/
def ids (schema : Schema) (db : Database) (table : String) : Except Error Cells :=
  db.cells table schema.idColumn

/-- Ids as a scratch table keeps them. -/
def scratchIds (schema : Schema) (vs : List Value) : Cells := .ofValues schema.idAffinity vs

/-- Adds the selected ids to a table. The selection is complete before anything is written. -/
def insertIds (schema : Schema) (table : String) (select : Database → Except Error (List Value)) :
    Program Unit :=
  Program.update fun db => do
    db.insertColumn table schema.idColumn (← select db)

/-- Adds the selected ids that a table does not hold yet, each once. -/
def insertNewIds (schema : Schema) (table : String) (select : Database → Except Error Cells) :
    Program Unit :=
  schema.insertIds table fun db => do
    let present ← schema.ids db table
    return Value.groups ((← select db).without present).values

end Schema

/-- A new table of columns. With `replace` it takes the place of any old one of that name, which is
gone even if the new one cannot be created. -/
def Program.createTable (table : String) (columns : List Column) (replace : Bool) : Program Unit := do
  if replace then Program.update fun db => .ok (db.drop table)
  Program.update fun db => db.create table columns

end Provenance
