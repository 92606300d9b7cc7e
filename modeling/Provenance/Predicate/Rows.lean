-- SUMMARY: Predicates on the rows of a table, with the operands that a statement cannot use.
import Provenance.Predicate.Expression
import Provenance.Sql.Limit
import Provenance.Table

/-!
# Predicates on the rows of a table

A predicate selects rows by the cells of the columns it names. Ids and endpoints are compared as text, and
in a numeric column an operand that is a number in full is compared as one. A null satisfies no
comparison, and a key without a column is treated by the callers as a column of nulls. An invalid
regular expression goes unnoticed until a cell that is not null is tested, a wildcard pattern that is
too long until any cell is.
-/
namespace Provenance

namespace Operator

/-- The comparison of a cell with an operand in the form of a column; `finder` is what a regular
expression in the operand finds. -/
def admits (op : Operator) (finder : Option (String → Bool)) (form : Affinity) (operand : String)
    (cell : Value) : Bool :=
  let bound := form.store (.text operand)
  let compared := form.store cell
  match cell.text? with
  | none => false
  | some s =>
    match op with
    | .equal => compared.canonical = bound.canonical
    | .notEqual => compared.canonical ≠ bound.canonical
    | .greater => bound.lt compared
    | .greaterEqual => bound.le compared
    | .less => compared.lt bound
    | .lessEqual => compared.le bound
    | .regex => finder.any (· s)
    | .like => Like.folded operand (cell.asText.text?.getD "")

end Operator

/-- The cell as it is compared: ids and endpoints as text. -/
def Schema.comparedCell (schema : Schema) (r : Row) (column : String) : Value :=
  if schema.isReserved column then (r.get column).asText else r.get column

/-- The form in which a column is compared with operands. -/
def Schema.operandForm (schema : Schema) (t : Table) (column : String) : Affinity :=
  if schema.isReserved column then .blob else (t.affinity column).operand

namespace Predicate

/-- One of the columns, each given with its form, satisfies the comparison. -/
def admitsRow (p : Predicate) (schema : Schema) (finder : Option (String → Bool))
    (columns : List (String × Affinity)) (r : Row) : Bool :=
  columns.any fun (c, form) => p.operator.admits finder form p.value (schema.comparedCell r c)

variable [RegexLibrary]

/-- A comparison of the rows in the columns meets an operand that it cannot use. -/
def fails (p : Predicate) (columns : List String) (rows : List Row) : Bool :=
  match p.operator with
  | .regex => p.isFaulty && rows.any fun r => columns.any fun c => r.get c ≠ .null
  | .like => Sql.patternLimit < p.value.utf8ByteSize && !rows.isEmpty && !columns.isEmpty
  | _ => false

/-- Those of a table's rows that satisfy the predicate in one of the columns. -/
def filterRows (p : Predicate) (schema : Schema) (t : Table) (columns : List String)
    (rows : List Row) : Except Error (List Row) :=
  let finder := p.finder?
  let formed := columns.map fun c => (c, schema.operandForm t c)
  if p.fails columns rows then .error .statementFailed
  else .ok (rows.filter (p.admitsRow schema finder formed))

/-- The columns that the predicate names among those there are. -/
def columnsIn (p : Predicate) (existing : List String) : List String :=
  if p.isWildcard then existing else existing.filter (· = p.key)

end Predicate
end Provenance
