-- SUMMARY: The causes of failure and the wording of each.
import Provenance.Predicate.Basic

/-!
# Causes of failure

Every operation that can fail names its cause. The wording of a cause is fixed in `Error.message`
alone.
-/
namespace Provenance

/-- The names that a schema gives. -/
inductive SchemaName where
  | vertexTable
  | edgeTable
  | idColumn
  | childColumn
  | parentColumn
  | idType
  deriving DecidableEq

def SchemaName.label : SchemaName → String
  | vertexTable => "vertex table"
  | edgeTable => "edge table"
  | idColumn => "id column"
  | childColumn => "child column"
  | parentColumn => "parent column"
  | idType => "id type"

/-- The parts without which something cannot be built. -/
inductive Part where
  | environment
  | store
  | session
  | boundSession
  | schema
  | scratchName
  | source
  | tables
  deriving DecidableEq

def Part.complaint : Part → String
  | environment => "NULL query environment"
  | store => "NULL backing store"
  | session => "BackingStore requires a session"
  | boundSession => "BackingStore session is not bound to an engine"
  | schema => "BackingStore requires a schema"
  | scratchName => "NULL/Empty scratch table prefix"
  | source => "LineageTraversal requires a backend"
  | tables => "SQLLineageBackend requires a backing store"

/-- The arguments that may not be negative. -/
inductive Bound where
  | limit
  | depth
  | maxDepth
  deriving DecidableEq

def Bound.label : Bound → String
  | limit => "limit"
  | depth => "depth"
  | maxDepth => "max_depth"

/-- The closed lists of words that arguments are chosen from. -/
inductive Vocabulary where
  | operator
  | direction
  | component
  | endpoint
  | element
  deriving DecidableEq

def Vocabulary.label : Vocabulary → String
  | operator => "PredicateOperator"
  | direction => "Direction"
  | component => "GraphComponent"
  | endpoint => "EdgeEndpoint"
  | element => "ElementType"

inductive Error where
  | blankName (name : SchemaName) (given : Option String)
  | invalidTablePrefix (given : Option String)
  | invalidHandleName (given : Option String)
  | missing (part : Part)
  | unknownSource (kind : String)
  | unknownGraph (name : String)
  | unknownMetadata (name : String)
  | readOnlyBase
  | metadataIsFixed
  | regexUnsupported (dialect : String)
  | noRoot (predicates : List Predicate)
  | negative (bound : Bound) (given : Int)
  | noBins (given : Int)
  | noKeys
  | unknownDirection (given : String)
  | notInVocabulary (vocabulary : Vocabulary) (given : Option String)
  | noVertex (id : String)
  | noEdge (id : String)
  | noRole (role : String)
  | noColumn (name : String)
  | statementFailed
  | parameterTooLarge
  | noSum
  | invalidPattern
  deriving DecidableEq

open Text in
def Error.message : Error → String
  | blankName name given => "NULL/Empty " ++ name.label ++ ": " ++ quotedOrNone given
  | invalidTablePrefix given => "Invalid table prefix: " ++ quotedOrNone given
  | invalidHandleName given => "Invalid handle name: " ++ quotedOrNone given
  | missing part => part.complaint
  | unknownSource kind => "Unknown lineage backend: " ++ quoted kind
  | unknownGraph name => "Unknown graph handle: " ++ quoted name
  | unknownMetadata name => "Unknown graph metadata handle: " ++ quoted name
  | readOnlyBase => "The base graph is read-only"
  | metadataIsFixed => "Setting graph metadata is not supported"
  | regexUnsupported dialect => "Regex predicates are not supported on " ++ quoted dialect
  | noRoot predicates => "No vertex matches " ++ Predicate.describeAll predicates
  | negative bound given => bound.label ++ " must be >= 0, got " ++ toString given
  | noBins given => "bin_count must be > 0, got " ++ toString given
  | noKeys => "At least one annotation key is required"
  | unknownDirection given => "Unknown direction: " ++ quoted given
  | notInVocabulary vocabulary given =>
    quotedOrNone given ++ " is not a valid " ++ vocabulary.label
  | noVertex id => "Vertex not found: " ++ quoted id
  | noEdge id => "Edge not found: " ++ quoted id
  | noRole role => role
  | noColumn name => name
  | statementFailed => "The statement failed"
  | parameterTooLarge => "The parameter does not fit into 64 bits"
  | noSum => "The numbers have no sum"
  | invalidPattern => "The pattern is not a regular expression"

end Provenance
