-- SUMMARY: Instructions that select elements by ids, predicates, annotation keys and matches.
import Provenance.Instruction.Scope
import Provenance.Predicate.Rows

/-!
# Selecting elements

Instructions that select elements by given ids, by a predicate, by the annotations they carry, or by
agreement with elements of another graph. A key without a column is a column of nulls everywhere and
never an error.
-/
namespace Provenance.Environment

/-! ## Given ids -/

/-- The longest id that is looked for; content ids have this length. -/
def longestGivenId : Nat := 32

/-- Adds those of the given ids that occur among the annotations. -/
def insertGiven (env : Environment) (e : Element) (target : GraphRef) (ids : List String) :
    Program Unit := do
  let target ← env.writable target
  let wanted := ids.filter (·.length ≤ longestGivenId)
  if wanted.isEmpty then return
  Program.withScratch ["literal"] fun request => do
    Program.createScratch request "literal"
    let given := env.schema.scratchIds (wanted.map .text)
    env.schema.insertNewIds (target.part e) fun db =>
      return (← env.schema.ids db (env.schema.annotationTable e)).within given

/-! ## Predicates -/

section Predicates

variable [RegexLibrary]

/-- The ids of the annotation rows within a graph that satisfy a predicate in one of the columns. With no
column to compare, only the test for difference is asked, and it selects every row. -/
def idsMatching (env : Environment) (db : Database) (e : Element) (table? : Option String)
    (p : Predicate) (columns : List String) : Except Error (List Value) := do
  let depth := Sql.anyDepth env.schema columns
  if Sql.depthLimit < (if table?.isSome then Sql.restrictedDepth depth else depth) then
    throw .statementFailed
  let t ← db.tableWith (env.schema.annotationTable e) [env.schema.idColumn]
  let rows ← if columns.isEmpty then pure t.rows else p.filterRows env.schema t columns t.rows
  return (← env.restrict db { t with rows } table?).map (·.get env.schema.idColumn)

/-- Adds the elements of a graph that satisfy a predicate; all of them without one. Absent from all
columns, a key equals no value, so only the test for difference selects anything. -/
def select (env : Environment) (e : Element) (target subject : GraphRef) (p : Option Predicate) :
    Program Unit := do
  let target ← env.writable target
  let subjectTables ← env.resolve subject
  let table? ← env.restriction? subject e
  match p with
  | none => env.schema.insertIds (target.part e) fun db =>
      return Value.groups (← env.schema.ids db (subjectTables.part e)).values
  | some p =>
    let columns := p.columnsIn (← env.annotationColumns e)
    if columns.isEmpty && p.operator ≠ .notEqual then return
    env.schema.insertIds (target.part e) fun db =>
      return Value.groups (← env.idsMatching db e table? p columns)

end Predicates

/-! ## Annotations that exist -/

/-- The vertices of a table that carry every key; none at all if a key has no column. The answer
`none` means that no statement was run. -/
def carriers (env : Environment) (table : String) (keys : List String) :
    Program (Option (Database → Except Error (List Value))) := do
  if keys.isEmpty then throw .noKeys
  let columns ← env.annotationColumns .vertex
  if !keys.all columns.contains then return none
  return some fun db => do
    if Sql.depthLimit < Sql.presenceDepth keys.length then throw .statementFailed
    let rows ← env.rowsInScope db .vertex (some table) keys
    let carrying := rows.filter fun r => keys.all fun key => r.get key ≠ .null
    return Value.groups (carrying.map (·.get env.schema.idColumn))

/-- Adds the vertices of a graph that carry every key. -/
def selectCarriers (env : Environment) (target subject : GraphRef) (keys : List String) :
    Program Unit := do
  let target ← env.writable target
  let subject ← env.resolve subject
  match ← env.carriers subject.vertices keys with
  | none => return
  | some ids => env.schema.insertIds target.vertices ids

/-! ## Agreement -/

/-- Two rows agree on a key when neither value is null and the values are equal. -/
def agreeOn (env : Environment) (r r' : Row) (key : String) : Bool :=
  ((env.schema.comparedCell r key).sameAs (env.schema.comparedCell r' key)).selects

/-- The pairs of vertices, one from each list, with rows that agree on every key. -/
def agreeing (env : Environment) (db : Database) (left right : Cells) (keys : List String) :
    Except Error (List (Value × Value)) := do
  if Sql.depthLimit < Sql.agreementDepth env.schema keys then throw .statementFailed
  let id := env.schema.idColumn
  let t ← db.tableWith env.schema.vertexTable (id :: keys)
  let rights := t.rowsWithin id right
  return (t.rowsWithin id left).flatMap fun r =>
    (rights.filter fun r' => keys.all (env.agreeOn r r')).map fun r' => (r.get id, r'.get id)

/-- Adds the vertices of two graphs that agree on every key with a vertex of the other. -/
def matchVertices (env : Environment) (target lhs rhs : GraphRef) (keys : List String) :
    Program Unit := do
  let _ ← env.writable target
  Program.withScratch ["lhs", "rhs", "pairs", "matched"] fun request => do
    Program.createScratch request "lhs"
    Program.createScratch request "rhs"
    let lhs ← env.resolve lhs
    match ← env.carriers lhs.vertices keys with
    | none => return
    | some leftIds =>
      let left := env.schema.scratchIds (← Program.query leftIds)
      let rhs ← env.resolve rhs
      let right ← match ← env.carriers rhs.vertices keys with
        | none => pure (env.schema.scratchIds [])
        | some rightIds => pure (env.schema.scratchIds (← Program.query rightIds))
      Program.createScratch request "pairs"
      Program.createScratch request "matched"
      let pairs ← Program.query fun db => env.agreeing db left right keys
      let target ← env.writable target
      env.schema.insertNewIds target.vertices fun _ =>
        return env.schema.scratchIds (pairs.map (·.1) ++ pairs.map (·.2))

end Provenance.Environment
