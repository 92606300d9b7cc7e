-- SUMMARY: Tables of rows under typed columns, and the forms in which values are stored and compared.
import Provenance.Name
import Provenance.Value

/-!
# Tables

A table is a bag of rows under named, typed columns; nothing keeps rows apart. A row lists its cells
by column name, and a name it does not list reads as null. What enters a column is stored under its
affinity, and under the affinities of two columns their cells are compared.
-/
namespace Provenance

/-! ## Columns -/

/-- How a column stores what is put into it, decided by the words of its declared type. -/
inductive Affinity where
  | integer
  | text
  | blob
  | real
  | numeric
  deriving DecidableEq

namespace Affinity

def containsWord (word : List Char) : List Char → Bool
  | [] => word.isEmpty
  | c :: cs => word.isPrefixOf (c :: cs) || containsWord word cs

/-- The first rule whose word occurs in the declared type decides. -/
def ofDeclared (declared : String) : Affinity :=
  let has (word : String) : Bool := containsWord word.toList (declared.toList.map Char.toUpper)
  if has "INT" then integer
  else if has "CHAR" || has "CLOB" || has "TEXT" then text
  else if has "BLOB" || declared.isEmpty then blob
  else if has "REAL" || has "FLOA" || has "DOUB" then real
  else numeric

/-- A number under a column of whole numbers: a whole double becomes an integer. -/
def wholeIfPossible : Number → Number
  | .int n => .int n
  | .real x => Number.ofFloat Number.inColumn x

/-- A number under a column of doubles. A whole double is kept as the integer until it is read again,
so a zero has no sign. -/
def asReal (n : Number) : Number := .real (wholeIfPossible n).toFloat

/-- The form in which a column keeps a value. Text that is a number in full becomes that number in a
numeric column, and a number becomes its text in a text column. -/
def store (a : Affinity) (v : Value) : Value :=
  match a, v with
  | _, .null => .null
  | blob, v => v
  | text, v => v.asText
  | real, .num n => .num (asReal n)
  | real, .text s =>
    match Number.ofNumericText? s with
    | some n => .num (asReal n)
    | none => .text s
  | _, .num n => .num (wholeIfPossible n)
  | _, .text s =>
    match Number.ofNumericText? s with
    | some n => .num n
    | none => .text s

/-! ### Comparison -/

def isNumeric : Affinity → Bool
  | integer => true
  | real => true
  | numeric => true
  | _ => false

/-- The form in which a value without a column is compared with the cells of a column, and a cell
with such a value. -/
def operand (a : Affinity) : Affinity := if a.isNumeric then numeric else blob

/-- The form in which the cells of two columns are compared: as numbers where they can be read so, if
one of the columns is numeric, and else as they are. Columns of one affinity store alike what is
alike, but for numbers in columns of no type: there an integer and the equal double are kept apart,
which an engine takes for the same. Ids are texts, so they have no such pairs. -/
def meet (a b : Affinity) : Affinity :=
  if a ≠ b && (a.isNumeric || b.isNumeric) then numeric else blob

end Affinity

structure Column where
  name : String
  affinity : Affinity
  deriving DecidableEq

/-- The affinity of a name among columns; a name without a column has none. -/
def Column.affinityOf (columns : List Column) (name : String) : Affinity :=
  ((columns.find? (·.name = name)).map (·.affinity)).getD .blob

/-- The columns with one more. It takes the place of a column of the same spelling. -/
def Column.declare (columns : List Column) (c : Column) : List Column :=
  if columns.any (·.name = c.name) then columns.map fun d => if d.name = c.name then c else d
  else columns ++ [c]

/-! ## Rows -/

structure Row where
  cells : List (String × Value)
  deriving DecidableEq

namespace Row

def get (r : Row) (name : String) : Value := (r.cells.lookup name).getD .null

/-- The row of a table with these columns whose cells are given by name. -/
def ofCells (columns : List Column) (cell : String → Value) : Row :=
  ⟨columns.map fun c => (c.name, c.affinity.store (cell c.name))⟩

/-- The row with one cell changed. -/
def set (r : Row) (name : String) (v : Value) : Row :=
  ⟨r.cells.map fun cell => if cell.1 = name then (name, v) else cell⟩

theorem get_ofCells {columns : List Column} {cell : String → Value} {name : String}
    (h : name ∈ columns.map (·.name)) :
    (ofCells columns cell).get name = (Column.affinityOf columns name).store (cell name) := by
  induction columns with
  | nil => simp at h
  | cons c cs ih =>
    by_cases hc : name = c.name
    · subst hc
      simp [ofCells, get, Column.affinityOf]
    · have hm : name ∈ cs.map (·.name) := by simpa [hc] using h
      have hb : (name == c.name) = false := by simpa using hc
      have hn : ¬ c.name = name := fun e => hc e.symm
      have := ih hm
      simpa [ofCells, get, Column.affinityOf, List.lookup_cons, hb, hn] using this

end Row

/-! ## Tables -/

structure Table where
  columns : List Column
  rows : List Row
  deriving DecidableEq

namespace Table

def names (t : Table) : List String := t.columns.map (·.name)

def has (t : Table) (name : String) : Bool := t.names.contains name

/-- The cells of one column, a row each. -/
def values (t : Table) (name : String) : List Value := t.rows.map (·.get name)

def affinity (t : Table) (name : String) : Affinity := Column.affinityOf t.columns name

/-- The spelling of a column's name in the table. -/
def spelling? (t : Table) (name : String) : Option String := t.names.find? (Name.same name)

/-- More rows, at the end. -/
def append (t : Table) (rows : List Row) : Table := { t with rows := t.rows ++ rows }

/-- A new row from cells by name; of a name given twice the first counts, and columns without a cell
are null. -/
def row (t : Table) (cells : List (String × Value)) : Row :=
  Row.ofCells t.columns fun name => (cells.lookup name).getD .null

/-- The rows with a single cell each, all other columns null. -/
def column (t : Table) (name : String) (vs : List Value) : List Row :=
  vs.map fun v => t.row [(name, v)]

end Table

/-! ## Cells of a column -/

/-- The cells of a column, a row each, and the affinity under which they are compared. -/
structure Cells where
  affinity : Affinity
  values : List Value
  deriving DecidableEq

namespace Cells

/-- The cells that equal some cell of another column. -/
def within (c other : Cells) : Cells :=
  let form := c.affinity.meet other.affinity
  let held := other.values.map form.store
  { c with values := c.values.filter fun v => (form.store v).memberOf held }

/-- The cells that equal no cell of another column. -/
def without (c other : Cells) : Cells :=
  let form := c.affinity.meet other.affinity
  let held := other.values.map form.store
  { c with values := c.values.filter fun v => (form.store v).absentFrom held }

/-- The values put into a column of the affinity. -/
def ofValues (a : Affinity) (vs : List Value) : Cells := ⟨a, vs.map a.store⟩

end Cells

namespace Table

def cells (t : Table) (name : String) : Cells := ⟨t.affinity name, t.values name⟩

/-- The rows whose cell in a column equals some cell of another. -/
def rowsWithin (t : Table) (name : String) (other : Cells) : List Row :=
  let form := (t.affinity name).meet other.affinity
  let held := other.values.map form.store
  t.rows.filter fun r => (form.store (r.get name)).memberOf held

end Table
end Provenance
