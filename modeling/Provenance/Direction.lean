-- SUMMARY: The ways along edges, directions, endpoints, and the words that select vertices or edges.
import Provenance.Error
import Provenance.Text.Blank

/-!
# Directions and selections

An edge points from a child to a parent. Ancestors are reached by moving to parents, descendants by
moving to children; a direction is one of these ways or both, one after the other. The other words
here select vertices or edges, or the ends of edges.
-/
namespace Provenance

/-- A single way along the edges. -/
inductive Way where
  | ancestor
  | descendant
  deriving DecidableEq

inductive Direction where
  | ancestor
  | descendant
  | both
  deriving DecidableEq

namespace Direction

def all : List Direction := [ancestor, descendant, both]

def word : Direction → String
  | ancestor => "ancestor"
  | descendant => "descendant"
  | both => "both"

/-- The single ways that make up a direction. -/
def ways : Direction → List Way
  | ancestor => [.ancestor]
  | descendant => [.descendant]
  | both => [.ancestor, .descendant]

/-- The direction of exactly this word. -/
def ofWord (given : Option String) : Except Error Direction :=
  match given.bind fun s => all.find? (·.word = s) with
  | some d => .ok d
  | none => .error (.notInVocabulary .direction given)

/-- The first direction that begins with the given letters, blanks around them and case aside. No
character outside ASCII has a lower case in a direction's word. -/
def ofAbbreviation (s : String) : Except Error Direction :=
  let letters := Text.lower (Text.trim s.toList)
  match all.find? fun d => !letters.isEmpty && letters.isPrefixOf d.word.toList with
  | some d => .ok d
  | none => .error (.unknownDirection s)

end Direction

def Way.word : Way → String
  | .ancestor => "ancestor"
  | .descendant => "descendant"

/-! ## Vertices and edges -/

inductive Element where
  | vertex
  | edge
  deriving DecidableEq

namespace Element

def word : Element → String
  | vertex => "vertex"
  | edge => "edge"

def ofWord (given : Option String) : Except Error Element :=
  match given.bind fun s => [vertex, edge].find? (·.word = s) with
  | some e => .ok e
  | none => .error (.notInVocabulary .element given)

end Element

/-- Which of a graph's id sets an instruction applies to. -/
inductive Component where
  | vertex
  | edge
  | both
  deriving DecidableEq

namespace Component

def word : Component → String
  | vertex => "vertex"
  | edge => "edge"
  | both => "both"

def ofWord (given : Option String) : Except Error Component :=
  match given.bind fun s => [vertex, edge, both].find? (·.word = s) with
  | some c => .ok c
  | none => .error (.notInVocabulary .component given)

def elements : Component → List Element
  | vertex => [.vertex]
  | edge => [.edge]
  | both => [.vertex, .edge]

end Component

/-- Which ends of an edge are meant: its source is the child, its destination the parent. -/
inductive Endpoint where
  | source
  | destination
  | both
  deriving DecidableEq

namespace Endpoint

def word : Endpoint → String
  | source => "source"
  | destination => "destination"
  | both => "both"

def ofWord (given : Option String) : Except Error Endpoint :=
  match given.bind fun s => [source, destination, both].find? (·.word = s) with
  | some e => .ok e
  | none => .error (.notInVocabulary .endpoint given)

end Endpoint

/-- The operator of exactly this symbol. -/
def Operator.ofSymbol (given : Option String) : Except Error Operator :=
  match given.bind ofSymbol? with
  | some op => .ok op
  | none => .error (.notInVocabulary .operator given)

end Provenance
