-- SUMMARY: The names of scratch tables, made of a request and a role.
import Provenance.Error

/-!
# Names of scratch tables

The scratch tables of one request are named after their roles. The request's identifier at the end
keeps them apart from those of any other request.
-/
namespace Provenance

structure ScratchNames where
  request : String
  names : List (String × String)

namespace ScratchNames

def name (stem request role : String) : String := stem ++ "_" ++ role ++ "_" ++ request

/-- A role given twice has one table. -/
def ofRoles (stem request : String) (roles : List String) : ScratchNames :=
  ⟨request, roles.eraseDups.map fun role => (role, name stem request role)⟩

/-- The table of a role. The identifier of the request is found under a name of its own, before any
role. -/
def find (s : ScratchNames) (role : String) : Except Error String :=
  if role = "request_id" then .ok s.request
  else
    match s.names.lookup role with
    | some table => .ok table
    | none => .error (.noRole role)

def describe (s : ScratchNames) : String :=
  "ScratchTables(" ++ Text.quoted s.request ++ ", roles=[" ++
    ", ".intercalate (s.names.map fun entry => Text.quoted entry.1) ++ "])"

end ScratchNames
end Provenance
