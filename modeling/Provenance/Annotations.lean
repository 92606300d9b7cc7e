-- SUMMARY: The annotations of an element in memory, their equality, and the content id made of them.
import Provenance.Value
import Provenance.Digest

/-!
# Annotations

The annotations of an element in memory: a text for each key. Its content id is the digest of the
annotations written one after the other in the order of their keys, so it does not depend on the
order in which they were given.
-/
namespace Provenance

structure Annotations where
  entries : List (String × String)
  deriving DecidableEq

namespace Annotations

def empty : Annotations := ⟨[]⟩

def get? (a : Annotations) (key : String) : Option String := a.entries.lookup key

def contains (a : Annotations) (key : String) : Bool := (a.get? key).isSome

def keys (a : Annotations) : List String := a.entries.map (·.1)

def values (a : Annotations) : List String := a.entries.map (·.2)

/-- The annotations with the key at the given text. A known key keeps its place. -/
def insert (a : Annotations) (key text : String) : Annotations :=
  if a.contains key then
    ⟨a.entries.map fun entry => if entry.1 = key then (key, text) else entry⟩
  else ⟨a.entries ++ [(key, text)]⟩

/-- Of several texts for a key the last counts. -/
def ofList (entries : List (String × String)) : Annotations :=
  entries.foldl (fun a entry => a.insert entry.1 entry.2) empty

/-- The union, in which the annotations of `b` take precedence. -/
def merge (a b : Annotations) : Annotations :=
  b.entries.foldl (fun a entry => a.insert entry.1 entry.2) a

/-! ## Content ids -/

/-- One annotation as it is hashed. -/
def hashedEntry (entry : String × String) : String := entry.1 ++ ":" ++ entry.2 ++ "|"

/-- The text that is hashed: the annotations in ascending order of their keys. -/
def hashedText (a : Annotations) : String :=
  String.join ((a.entries.mergeSort fun x y => decide (x.1 ≤ y.1)).map hashedEntry)

def contentId (a : Annotations) : String := Digest.hashText a.hashedText

end Annotations

/-! ## Given values -/

/-- A value given for an annotation, before it becomes text. -/
inductive Scalar where
  | missing
  | truth (b : Bool)
  | number (n : Number)
  | text (s : String)
  deriving DecidableEq

namespace Scalar

def toText : Scalar → String
  | missing => "None"
  | truth b => if b then "True" else "False"
  | number n => Value.numberText n
  | text s => s

def isMissing : Scalar → Bool
  | missing => true
  | _ => false

end Scalar

namespace Annotations

/-- All given values as text, missing ones too. -/
def ofScalars (given : List (String × Scalar)) : Annotations :=
  ofList (given.map fun entry => (entry.1, entry.2.toText))

/-- The given values as text; a missing one is no annotation. -/
def ofPresent (given : List (String × Scalar)) : Annotations :=
  ofScalars (given.filter fun entry => !entry.2.isMissing)

end Annotations
end Provenance
