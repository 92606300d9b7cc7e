-- SUMMARY: The annotation tables, their id and endpoint columns, and the type of ids.
import Provenance.Error
import Provenance.Text.Blank

/-!
# Schemas

The annotation tables of vertices and edges, their id and endpoint columns, and the column type of
ids. No name is blank.
-/
namespace Provenance

structure Schema where
  vertexTable : String
  edgeTable : String
  idColumn : String
  childColumn : String
  parentColumn : String
  idType : String
  deriving DecidableEq

namespace Schema

def standard : Schema :=
  { vertexTable := "vertex"
    edgeTable := "edge"
    idColumn := "hash"
    childColumn := "childhash"
    parentColumn := "parenthash"
    idType := "VARCHAR(64)" }

instance : Inhabited Schema := ⟨standard⟩

def isBlankText (s : String) : Bool := (Text.trim s.toList).isEmpty

/-- A given name, unless it is missing or blank. -/
def checkName (name : SchemaName) (given : Option String) : Except Error String :=
  match given with
  | some s => if isBlankText s then .error (.blankName name given) else .ok s
  | none => .error (.blankName name given)

/-- The schema with the given names, which are checked in order. -/
def ofNames (given : SchemaName → Option String) : Except Error Schema := do
  let vertexTable ← checkName .vertexTable (given .vertexTable)
  let edgeTable ← checkName .edgeTable (given .edgeTable)
  let idColumn ← checkName .idColumn (given .idColumn)
  let childColumn ← checkName .childColumn (given .childColumn)
  let parentColumn ← checkName .parentColumn (given .parentColumn)
  let idType ← checkName .idType (given .idType)
  return { vertexTable, edgeTable, idColumn, childColumn, parentColumn, idType }

/-- The edge columns that hold no annotation. -/
def reserved (s : Schema) : List String := [s.idColumn, s.childColumn, s.parentColumn]

def isReserved (s : Schema) (column : String) : Bool := s.reserved.contains column

/-- The reserved columns in ascending order, each once. -/
def sortedReserved (s : Schema) : List String :=
  s.reserved.eraseDups.mergeSort fun a b => decide (a ≤ b)

end Schema
end Provenance
