-- SUMMARY: Vertices and edges outside the store, and the ids that they get from their contents.
import Provenance.Annotations

/-!
# Vertices and edges

Elements held in memory or taken out of the store. A vertex is known by its id alone. An element
built without an id gets the content id of its annotations; that of an edge covers its endpoints too,
under two keys of their own.
-/
namespace Provenance

structure Vertex where
  id : String
  annotations : Annotations
  deriving DecidableEq

structure Edge where
  id : String
  child : String
  parent : String
  annotations : Annotations
  deriving DecidableEq

/-- The key under which an edge's child is addressed and hashed. -/
def childKey : String := "childVertexHash"

/-- The key under which an edge's parent is addressed and hashed. -/
def parentKey : String := "parentVertexHash"

/-- The given id, unless it is missing or empty. -/
def givenId? (id : Option String) : Option String := id.filter (· ≠ "")

namespace Vertex

def create (id : Option String) (given : List (String × Scalar)) : Vertex :=
  let annotations := Annotations.ofPresent given
  ⟨(givenId? id).getD annotations.contentId, annotations⟩

def get? (v : Vertex) (key : String) : Option String := v.annotations.get? key

/-- The vertex stands for an endpoint on another host. -/
def isNetwork (v : Vertex) : Bool := v.get? "subtype" = some "network socket"

/-- Two vertices are the same when their ids are. -/
def same (a b : Vertex) : Bool := a.id = b.id

end Vertex

namespace Edge

/-- The annotations of an edge and, above them, its endpoints under their keys. -/
def withEndpoints (child parent : String) (annotations : Annotations) : Annotations :=
  (annotations.insert childKey child).insert parentKey parent

def create (id : Option String) (child parent : String) (given : List (String × Scalar)) : Edge :=
  let annotations := Annotations.ofPresent given
  ⟨(givenId? id).getD (withEndpoints child parent annotations).contentId, child, parent, annotations⟩

def get? (e : Edge) (key : String) : Option String := e.annotations.get? key

/-- What predicates see of an edge. -/
def values (e : Edge) : Annotations := withEndpoints e.child e.parent e.annotations

/-- Two edges are the same when their ids and endpoints are. -/
def same (a b : Edge) : Bool := a.id = b.id && a.child = b.child && a.parent = b.parent

end Edge
end Provenance
