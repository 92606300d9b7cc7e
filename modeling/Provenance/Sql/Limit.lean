-- SUMMARY: The limits of statements: columns, depth of conditions, length of patterns.
import Provenance.Schema

/-!
# Limits of statements

A statement is refused when it lists too many columns, when its condition is nested too deeply, or when
a wildcard pattern is too long. Conditions are joined one after the other, each to all before it, so a
condition gets deeper with every column that a wildcard stands for and with every key.
-/
namespace Provenance.Sql

/-- The most columns that a table has, that a statement answers with, or by which it groups. -/
def columnLimit : Nat := 2000

/-- The most levels of a condition. -/
def depthLimit : Nat := 1000

/-- The most bytes of a wildcard pattern. -/
def patternLimit : Nat := 50000

/-! ## Depths -/

/-- The depth of operands of which each is joined to all before it. -/
def joinedDepth : List Nat → Nat
  | [] => 0
  | d :: ds => ds.foldl (fun depth d => max depth d + 1) d

/-- The depth of a reference to a column: reserved columns are cast, and the table's alias before a
column is a level. -/
def referenceDepth (schema : Schema) (aliased : Bool) (column : String) : Nat :=
  (if aliased then 2 else 1) + if schema.isReserved column then 1 else 0

/-- The depth of a comparison of one of the columns with a parameter. -/
def anyDepth (schema : Schema) (columns : List String) : Nat :=
  joinedDepth (columns.map fun column => referenceDepth schema false column + 1)

/-- The depth of a condition together with a membership test, below which lies the subquery's own
column. -/
def restrictedDepth (depth : Nat) : Nat := max depth 2 + 2

/-- The depth of the conditions that a vertex is in a graph and that each of so many columns is not
null. -/
def presenceDepth (keys : Nat) : Nat := joinedDepth (3 :: List.replicate keys 3) + 1

/-- The depth of the condition that two vertices agree on all keys: each is joined to one of its own
graph, and for each key the two columns are equal and neither is null. -/
def agreementDepth (schema : Schema) (keys : List String) : Nat :=
  joinedDepth (3 :: 3 :: keys.map fun key => referenceDepth schema true key + 3)

end Provenance.Sql
