-- SUMMARY: The parts that statements over a schema are put together from.
import Provenance.Sql.Dialect
import Provenance.Schema

/-!
# Fragments of statements

The parts from which statements over a schema are put together: membership in a table of ids,
references to columns, and comparisons of a column with a parameter. Ids and endpoints are compared
as text.
-/
namespace Provenance.Sql

/-- The symbol of an operator in a dialect. -/
def operatorSymbol (d : Dialect) : Operator → Except Error String
  | .regex => d.regexSymbol
  | .like => .ok "LIKE"
  | op => .ok op.symbol

/-- Membership: `expression IN (SELECT id FROM table)`. -/
def inSet (d : Dialect) (schema : Schema) (expression table : String) : String :=
  expression ++ " IN (SELECT " ++ d.quote schema.idColumn ++ " FROM " ++ d.quote table ++ ")"

/-- Absence: `expression NOT IN (SELECT id FROM table)`. -/
def notInSet (d : Dialect) (schema : Schema) (expression table : String) : String :=
  expression ++ " NOT IN (SELECT " ++ d.quote schema.idColumn ++ " FROM " ++ d.quote table ++ ")"

/-- An expression for a column, cast to text if the column is reserved. -/
def compared (d : Dialect) (schema : Schema) (column expression : String) : String :=
  if schema.isReserved column then d.textCast expression else expression

/-- A column of the table that the alias stands for. -/
def columnReference (d : Dialect) (schema : Schema) (table column : String) : String :=
  compared d schema column (table ++ "." ++ d.quote column)

/-- The comparison of a column with a named parameter. -/
def comparison (d : Dialect) (schema : Schema) (column : String) (op : Operator)
    (parameter : String) : Except Error String := do
  let expression := compared d schema column (d.quote column)
  return expression ++ " " ++ (← operatorSymbol d op) ++ " :" ++ parameter

end Provenance.Sql
