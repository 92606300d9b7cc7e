-- SUMMARY: Graph and metadata handles, and the registries of their tables.
import Provenance.Schema

/-!
# Handles and their tables

A graph is the base graph, which is everything in the annotation tables, or a named set of ids. A
registry maps the names of one kind of handle to the two tables behind each, in the order of
registration, and finds names that are not taken yet. An environment holds the registry of graphs and
that of graph metadata under one schema.
-/
namespace Provenance

inductive GraphRef where
  | base
  | named (name : String)
  deriving DecidableEq

/-- The vertex table and the edge table behind a handle. -/
structure TablePair where
  vertices : String
  edges : String
  deriving DecidableEq

/-! ## Registries -/

structure Registry where
  slots : List (String × TablePair)
  deriving DecidableEq

namespace Registry

def empty : Registry := ⟨[]⟩

def size (r : Registry) : Nat := r.slots.length

def names (r : Registry) : List String := r.slots.map (·.1)

def find? (r : Registry) (name : String) : Option TablePair := r.slots.lookup name

def contains (r : Registry) (name : String) : Bool := (r.find? name).isSome

/-- A name that is registered keeps its tables and its place. -/
def register (r : Registry) (name : String) (tables : TablePair) : Registry :=
  if r.contains name then r else ⟨r.slots ++ [(name, tables)]⟩

/-- The name stands for the given tables from now on. -/
def replace (r : Registry) (name : String) (tables : TablePair) : Registry :=
  if r.contains name then
    ⟨r.slots.map fun slot => if slot.1 = name then (name, tables) else slot⟩
  else ⟨r.slots ++ [(name, tables)]⟩

def remove (r : Registry) (name : String) : Registry :=
  ⟨r.slots.filter fun slot => slot.1 ≠ name⟩

/-- The name made of a stem and a number. -/
def numbered (stem : String) (n : Nat) : String := stem ++ toString n

/-- The first number from `n` on whose name is not registered, among `fuel + 1` candidates. -/
def freshIndex (r : Registry) (stem : String) : Nat → Nat → Nat
  | 0, n => n
  | fuel + 1, n => if r.contains (numbered stem n) then freshIndex r stem fuel (n + 1) else n

/-- A name that is not registered. The search begins at the size of the registry, so it ends after
at most one candidate more than there are names. -/
def freshName (r : Registry) (stem : String) : String :=
  numbered stem (r.freshIndex stem r.size r.size)

end Registry

/-! ## Names -/

def isNameStart (c : Char) : Bool := c.isAlpha || c = '_'

def isNameRest (c : Char) : Bool := c.isAlphanum || c = '_'

/-- A letter or underscore, then letters, digits and underscores; one line end may follow. -/
def isHandleName (s : String) : Bool :=
  match s.toList with
  | [] => false
  | c :: cs => isNameStart c && ((cs.dropWhile isNameRest).isEmpty || cs.dropWhile isNameRest = ['\n'])

/-- A given name, if it may name a handle or begin a table name. -/
def handleName? (given : Option String) : Option String := given.filter isHandleName

/-! ## Environments -/

structure Environment where
  schema : Schema
  stem : String
  graphs : Registry
  metadata : Registry
  deriving DecidableEq

namespace Environment

/-- The beginning of table names where none is asked for. -/
def standardStem : String := "provstore"

/-- An environment without handles, whose table names begin with `stem`. -/
def create (schema : Schema) (stem : Option String) : Except Error Environment :=
  match handleName? stem with
  | some stem => .ok ⟨schema, stem, .empty, .empty⟩
  | none => .error (.invalidTablePrefix stem)

def graphTables (env : Environment) (name : String) : TablePair :=
  ⟨env.stem ++ "_graph_" ++ name ++ "_vertex", env.stem ++ "_graph_" ++ name ++ "_edge"⟩

def metadataTables (env : Environment) (name : String) : TablePair :=
  ⟨env.stem ++ "_meta_" ++ name ++ "_vertex", env.stem ++ "_meta_" ++ name ++ "_edge"⟩

def addGraph (env : Environment) (name : String) : Environment :=
  { env with graphs := env.graphs.register name (env.graphTables name) }

def addMetadata (env : Environment) (name : String) : Environment :=
  { env with metadata := env.metadata.register name (env.metadataTables name) }

/-- The name of the handle, and the environment that has it. -/
def registerGraph (env : Environment) (given : Option String) :
    Except Error (String × Environment) :=
  match handleName? given with
  | some name => .ok (name, env.addGraph name)
  | none => .error (.invalidHandleName given)

def registerMetadata (env : Environment) (given : Option String) :
    Except Error (String × Environment) :=
  match handleName? given with
  | some name => .ok (name, env.addMetadata name)
  | none => .error (.invalidHandleName given)

def newGraph (env : Environment) : String × Environment :=
  let name := env.graphs.freshName "g"
  (name, env.addGraph name)

def newMetadata (env : Environment) : String × Environment :=
  let name := env.metadata.freshName "m"
  (name, env.addMetadata name)

/-- Forgets a handle; its tables stay. -/
def removeGraph (env : Environment) (name : String) : Environment :=
  { env with graphs := env.graphs.remove name }

def hasGraph (env : Environment) : GraphRef → Bool
  | .base => true
  | .named name => env.graphs.contains name

/-! ## Resolution -/

/-- The tables of the base graph are the annotation tables: they have the same id column as every
table of ids. -/
def resolve (env : Environment) : GraphRef → Except Error TablePair
  | .base => .ok ⟨env.schema.vertexTable, env.schema.edgeTable⟩
  | .named name =>
    match env.graphs.find? name with
    | some tables => .ok tables
    | none => .error (.unknownGraph name)

def resolveMetadata (env : Environment) (name : String) : Except Error TablePair :=
  match env.metadata.find? name with
  | some tables => .ok tables
  | none => .error (.unknownMetadata name)

/-- The tables of a graph that an instruction may write to. -/
def writable (env : Environment) : GraphRef → Except Error TablePair
  | .base => .error .readOnlyBase
  | .named name => env.resolve (.named name)

def describe (env : Environment) : String :=
  "QueryEnvironment(graphs=" ++ toString env.graphs.size ++ ", metadata=" ++
    toString env.metadata.size ++ ")"

end Environment
end Provenance
