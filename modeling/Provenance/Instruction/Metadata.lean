-- SUMMARY: Instructions that tag elements and override the tags of one metadata by those of another.
import Provenance.Instruction.Scope

/-!
# Graph metadata

Metadata tag elements with named values, in tables of ids, names and values. One metadata overrides
another by all of its rows together with those rows of the other whose id and name it does not have.
-/
namespace Provenance

/-- The columns of a metadata table. -/
def Schema.metadataColumns (schema : Schema) : List Column :=
  [⟨"id", schema.idAffinity⟩, ⟨"name", .text⟩, ⟨"value", .text⟩]

def metadataNames : List String := ["id", "name", "value"]

/-- The columns that say what is tagged and how. -/
def metadataKeys : List String := ["id", "name"]

/-- Two rows of two tables tag the same element with the same name. -/
def sameTag (left right : Table) (l r : Row) : Bool :=
  metadataKeys.all fun column =>
    let form := (left.affinity column).meet (right.affinity column)
    ((form.store (l.get column)).equals (form.store (r.get column))).selects

/-- The rows of one table that no row of another tags the same way. -/
def untaggedBy (right left : Table) : List Row :=
  left.rows.filter fun l => !right.rows.any (sameTag left right l)

namespace Database

/-- Copies of the id, name and value of rows, added to a table. -/
def insertMetadata (db : Database) (name : String) (rows : List Row) : Except Error Database := do
  let t ← db.tableWith name metadataNames
  return db.put name
    (t.append (rows.map fun r => t.row (metadataNames.map fun column => (column, r.get column))))

end Database

namespace Environment

/-- Makes the tables of metadata anew, without rows. -/
def createEmptyMetadata (env : Environment) (target : String) : Program Unit := do
  let target ← env.resolveMetadata target
  Program.createTable target.vertices env.schema.metadataColumns true
  Program.createTable target.edges env.schema.metadataColumns true

/-- Adds what one table holds, overridden by another. -/
def overwriteTable (target lhs rhs : String) : Program Unit := do
  Program.update fun db => do
    let right ← db.tableWith rhs metadataKeys
    let left ← db.tableWith lhs metadataNames
    db.insertMetadata target (untaggedBy right left)
  Program.update fun db => do
    let right ← db.tableWith rhs metadataNames
    db.insertMetadata target right.rows

/-- Adds the metadata `lhs` overridden by `rhs`, for vertices and then for edges. -/
def overwriteMetadata (env : Environment) (target lhs rhs : String) : Program Unit := do
  let target ← env.resolveMetadata target
  let lhs ← env.resolveMetadata lhs
  let rhs ← env.resolveMetadata rhs
  overwriteTable target.vertices lhs.vertices rhs.vertices
  overwriteTable target.edges lhs.edges rhs.edges

end Environment
end Provenance
