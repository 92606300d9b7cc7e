-- SUMMARY: The shared table in which environments save their handles.
import Provenance.Registry

/-!
# Saved handles

Environments save their handles in one shared table, a row for each handle of each kind. Saving makes
the table hold exactly the handles of the environment; loading replaces the handles of the environment
by those of the table. A row keeps its table names, so a handle means the same tables wherever it is
loaded.
-/
namespace Provenance

inductive HandleKind where
  | graph
  | metadata
  deriving DecidableEq

def HandleKind.label : HandleKind → String
  | graph => "graph"
  | metadata => "metadata"

structure HandleRecord where
  name : String
  kind : HandleKind
  tables : TablePair
  deriving DecidableEq

abbrev HandleTable := List HandleRecord

namespace Environment

def recordsOf (kind : HandleKind) (r : Registry) : HandleTable :=
  r.slots.map fun slot => ⟨slot.1, kind, slot.2⟩

/-- The rows that the environment wants saved. -/
def records (env : Environment) : HandleTable :=
  recordsOf .graph env.graphs ++ recordsOf .metadata env.metadata

def sameHandle (a b : HandleRecord) : Bool := a.name = b.name && a.kind = b.kind

/-- Rows of other handles go, rows of known ones get the tables of the environment, and rows that
are missing come last. -/
def save (env : Environment) (stored : HandleTable) : HandleTable :=
  let wanted := env.records
  let kept := stored.filterMap fun old => wanted.find? (sameHandle old)
  let added := wanted.filter fun new => !stored.any (sameHandle new)
  kept ++ added

def registryOf (kind : HandleKind) (stored : HandleTable) : Registry :=
  (stored.filter (·.kind = kind)).foldl (fun r row => r.replace row.name row.tables) .empty

def load (env : Environment) (stored : HandleTable) : Environment :=
  { env with graphs := registryOf .graph stored, metadata := registryOf .metadata stored }

end Environment
end Provenance
