-- SUMMARY: Exports of vertices and edges with their annotations.
import Provenance.Instruction.Scope
import Provenance.Elements

/-!
# Exports

The elements of a graph taken out of the store, with the annotations that are not null. Of several
rows for one vertex the last counts, of several rows for one edge the first. The reserved columns are
taken out of a row before its annotations, so they have to be there, each under a name of its own.
-/
namespace Provenance

/-- The annotations of a row: the texts of its cells, nulls and the listed columns aside. -/
def Table.annotationsOf (t : Table) (except : List String) (r : Row) : Annotations :=
  .ofList ((t.names.filter fun name => !except.contains name).filterMap fun name =>
    (r.get name).text?.map (name, ·))

namespace Schema

def vertexOf (schema : Schema) (t : Table) (r : Row) : Vertex :=
  ⟨(r.get schema.idColumn).label, t.annotationsOf [schema.idColumn] r⟩

def edgeOf (schema : Schema) (t : Table) (r : Row) : Edge :=
  ⟨(r.get schema.idColumn).label, (r.get schema.childColumn).label,
    (r.get schema.parentColumn).label, t.annotationsOf schema.reserved r⟩

end Schema

/-- The list with a vertex, which takes the place of one of the same id. -/
def putVertex (vs : List Vertex) (v : Vertex) : List Vertex :=
  if vs.any (·.same v) then vs.map fun w => if w.same v then v else w else vs ++ [v]

/-- The list with an edge, unless it holds the edge already. -/
def putEdge (es : List Edge) (e : Edge) : List Edge :=
  if es.any (·.same e) then es else es ++ [e]

/-- Of several vertices of one id the last, in the place of the first. -/
def distinctVertices (vs : List Vertex) : List Vertex := vs.foldl putVertex []

/-- Of several edges of one id and the same ends the first. -/
def distinctEdges (es : List Edge) : List Edge := es.foldl putEdge []

namespace Environment

/-- The annotation table with the rows of a graph only. -/
def exported (env : Environment) (graph : GraphRef) (e : Element) : Program Table := do
  let table? ← env.restriction? graph e
  Program.query fun db => do
    let t ← db.table (env.schema.annotationTable e)
    return { t with rows := ← env.restrict db t table? }

/-- Takes columns out of a table one after the other. Where there are rows, it is an error if one is
missing or was taken before. -/
def takeColumns (t : Table) : List String → List String → Except Error Unit
  | _, [] => .ok ()
  | taken, name :: rest =>
    if t.rows.isEmpty || (t.has name && !taken.contains name) then takeColumns t (name :: taken) rest
    else .error (.noColumn name)

def exportVertices (env : Environment) (graph : GraphRef) : Program (List Vertex) := do
  let t ← env.exported graph .vertex
  takeColumns t [] [env.schema.idColumn]
  return distinctVertices (t.rows.map (env.schema.vertexOf t))

def exportEdges (env : Environment) (graph : GraphRef) : Program (List Edge) := do
  let t ← env.exported graph .edge
  takeColumns t [] env.schema.reserved
  return distinctEdges (t.rows.map (env.schema.edgeOf t))

end Environment
end Provenance
