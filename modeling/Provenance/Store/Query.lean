-- SUMMARY: Plain queries and statements of a few fixed shapes on a table.
import Provenance.Store

/-!
# Plain queries

Queries and statements of a few fixed shapes over any table: rows of some columns, the number of rows,
deletion, a changed cell, and given values. Each may be confined to the rows in which one column equals
a value. The values of these statements are written into their text and read back by the database; the
cells of new rows are not.
-/
namespace Provenance

inductive QueryKind where
  | rows (columns : List String)
  | count
  | delete
  | update (column : String) (value : Value)

namespace QueryKind

/-- An answer has at least one column, and not too many. -/
def isAnswerable : QueryKind → Bool
  | rows columns => !columns.isEmpty && columns.length ≤ Sql.columnLimit
  | _ => true

end QueryKind

inductive Query where
  | onTable (kind : QueryKind) (table : String) (condition : Option (String × Value))
  | values (given : List (String × Value))

/-- The names of the columns and the rows under them. A statement that changes rows has neither. -/
structure ResultTable where
  names : List String
  rows : List (List Value)
  hasRows : Bool

namespace ResultTable

def nothing : ResultTable := ⟨[], [], false⟩

/-- The rows as texts, nulls aside. -/
def texts (r : ResultTable) : List (List (Option String)) := r.rows.map (·.map Value.text?)

/-- The first cell, or null if there is none. -/
def scalar (r : ResultTable) : Value := (r.rows.head?.bind List.head?).getD .null

end ResultTable

/-! ## Written values -/

/-- A value in the text of a statement, as the database reads it: an integer that does not fit into a
word as a double, and a double from its shortest decimal text. Infinities have no such text. -/
def Value.written? : Value → Option Value
  | .null => some .null
  | .text s => if Name.isWritable s then some (.text s) else none
  | .num (.int n) =>
    some (.num (if Number.inWord n then .int n else .real (Literal.readScaled (toString n))))
  | .num (.real x) =>
    if x.isFinite then some (.num (.real (Literal.readScaled (Decimal.shortest x)))) else none

/-- The value as it is read, if it can be written. -/
def Value.written (v : Value) : Except Error Value :=
  match v.written? with
  | some v => .ok v
  | none => .error .statementFailed

/-- The kind of query with its value as it is read. -/
def QueryKind.written : QueryKind → Except Error QueryKind
  | .update column v => return .update column (← v.written)
  | kind => return kind

namespace Table

/-- The row satisfies the condition. The value is compared in the form in which the column keeps
it. -/
def meets (t : Table) (condition : Option (String × Value)) (r : Row) : Bool :=
  match condition with
  | none => true
  | some (column, v) => ((r.get column).sameAs ((t.affinity column).store v)).selects

/-- The answer to a query on a table, and the table afterwards. -/
def answer (t : Table) (kind : QueryKind) (condition : Option (String × Value)) :
    ResultTable × Table :=
  let met := t.rows.filter (t.meets condition)
  match kind with
  | .rows columns => (⟨columns, met.map fun r => columns.map r.get, true⟩, t)
  | .count => (⟨["n"], [[.num (.int met.length)]], true⟩, t)
  | .delete => (.nothing, { t with rows := t.rows.filter fun r => !t.meets condition r })
  | .update column v =>
    let stored := (t.affinity column).store v
    let changed := t.rows.map fun r => if t.meets condition r then r.set column stored else r
    (.nothing, { t with rows := changed })

/-- The spelling of a column's name in the table, which must have the column. -/
def spelling (t : Table) (name : String) : Except Error String :=
  match t.spelling? name with
  | some name => .ok name
  | none => .error .statementFailed

/-- The kind of query with the columns as the table spells them. -/
def spelled (t : Table) : QueryKind → Except Error QueryKind
  | .rows columns => return .rows (← columns.mapM t.spelling)
  | .update column v => return .update (← t.spelling column) v
  | kind => return kind

end Table

namespace Program

/-- Runs a query. -/
def execute : Query → Program ResultTable
  | .values given => do
    if given.isEmpty || Sql.columnLimit < given.length then throw .statementFailed
    if !given.all (Name.isWritable ·.1) then throw .statementFailed
    return ⟨given.map (·.1), [← given.mapM (Value.written ·.2)], true⟩
  | .onTable kind name condition => do
    if !kind.isAnswerable then throw .statementFailed
    let kind ← kind.written
    let t ← query fun db => db.table name
    let kind ← t.spelled kind
    let condition ← condition.mapM fun (column, v) => return (← t.spelling column, ← v.written)
    let (result, after) := t.answer kind condition
    if !result.hasRows then update fun db => return db.put name after
    return result

/-- Rows with the given cells, added to a table. A row may have more cells than there are columns, but
not fewer. -/
def insertRows (name : String) (columns : List String) (rows : List (List Value)) :
    Program Unit := do
  if rows.isEmpty then return
  if columns.isEmpty || rows.any (·.length < columns.length) then throw .statementFailed
  update fun db => do
    let t ← db.table name
    let columns ← columns.mapM t.spelling
    return db.put name (t.append (rows.map fun cells => t.row (columns.zip cells)))

def countRows (name : String) : Program Nat :=
  query fun db => return (← db.table name).rows.length

def columnNames (name : String) : Program (List String) := query fun db => db.columnNames name

/-- A table that does not exist is gone already. -/
def dropTable (name : String) : Program Unit := do
  if !Name.isWritable name then throw .statementFailed
  update fun db => .ok (db.drop name)

def clearTable (name : String) : Program Unit :=
  update fun db => return db.put name { (← db.table name) with rows := [] }

end Program
end Provenance
