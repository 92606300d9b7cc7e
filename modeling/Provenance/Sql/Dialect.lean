-- SUMMARY: How database engines quote names, match expressions, cast values and limit results.
import Provenance.Error

/-!
# Dialects of the query language

Database engines differ in how they quote names, match regular expressions, cast values and limit
results. A dialect that is not known by name is written in the common form and has no regular
expressions.
-/
namespace Provenance.Sql

inductive Dialect where
  | sqlite
  | postgresql
  | mssql
  | other (name : String)
  deriving DecidableEq

namespace Dialect

/-- Two engines have a second name. -/
def ofName (name : String) : Dialect :=
  if name = "sqlite" then sqlite
  else if name = "postgresql" || name = "postgres" then postgresql
  else if name = "mssql" || name = "pyodbc" then mssql
  else other name

def name : Dialect → String
  | sqlite => "sqlite"
  | postgresql => "postgresql"
  | mssql => "mssql"
  | other name => name

/-! ## Names -/

/-- The text with each closing quote written twice. -/
def doubled (closing : Char) (cs : List Char) : List Char :=
  cs.flatMap fun c => if c = closing then [c, c] else [c]

/-- A name as the engine reads it. Where the percent sign marks parameters it is written twice. -/
def quoteName (d : Dialect) (name : String) : String :=
  match d with
  | mssql => String.ofList ('[' :: doubled ']' name.toList ++ [']'])
  | postgresql => String.ofList ('"' :: doubled '%' (doubled '"' name.toList) ++ ['"'])
  | _ => String.ofList ('"' :: doubled '"' name.toList ++ ['"'])

/-- The text in which every colon is marked as an ordinary character and not the start of a
parameter. -/
def escapeColons (cs : List Char) : List Char :=
  cs.flatMap fun c => if c = ':' then ['\\', ':'] else [c]

/-- A name within a statement. -/
def quote (d : Dialect) (name : String) : String :=
  String.ofList (escapeColons (d.quoteName name).toList)

/-! ## Expressions -/

def regexSymbol : Dialect → Except Error String
  | postgresql => .ok "~"
  | sqlite => .ok "REGEXP"
  | d => .error (.regexUnsupported d.name)

def numericCast (d : Dialect) (expression : String) : String :=
  match d with
  | mssql => "CAST(" ++ expression ++ " AS DECIMAL(38, 10))"
  | _ => "CAST(" ++ expression ++ " AS NUMERIC)"

def textCast (d : Dialect) (expression : String) : String :=
  match d with
  | mssql => "CAST(" ++ expression ++ " AS NVARCHAR(MAX))"
  | _ => "CAST(" ++ expression ++ " AS TEXT)"

def limitClause (d : Dialect) (limit : Int) : String :=
  match d with
  | mssql => "OFFSET 0 ROWS FETCH NEXT " ++ toString limit ++ " ROWS ONLY"
  | _ => "LIMIT " ++ toString limit

def describeStore (d : Dialect) : String := "BackingStore(dialect=" ++ Text.quoted d.name ++ ")"

end Dialect
end Provenance.Sql
