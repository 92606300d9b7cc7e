-- SUMMARY: Tables by name under their folded spelling, with the laws of `find?`.
import Provenance.Table

/-!
# Databases

A database holds tables by name, under the form that all spellings of a name share. Every law is about
`find?`, which says what a name stands for.
-/
namespace Provenance

structure Database where
  tables : List (String × Table)
  deriving DecidableEq

namespace Database

def empty : Database := ⟨[]⟩

def find? (db : Database) (name : String) : Option Table := db.tables.lookup (Name.folded name)

/-- The database without the table, if there was one. -/
def drop (db : Database) (name : String) : Database :=
  ⟨db.tables.filter fun entry => entry.1 ≠ Name.folded name⟩

/-- The database in which the name stands for the table. -/
def put (db : Database) (name : String) (t : Table) : Database :=
  ⟨(Name.folded name, t) :: (db.drop name).tables⟩

theorem find?_drop (db : Database) (name other : String) :
    (db.drop name).find? other =
      if Name.folded other = Name.folded name then none else db.find? other := by
  obtain ⟨tables⟩ := db
  simp only [find?, drop]
  generalize Name.folded name = name
  generalize Name.folded other = other
  induction tables with
  | nil => simp
  | cons entry rest ih =>
    obtain ⟨key, t⟩ := entry
    by_cases hk : key = name
    · subst hk
      by_cases ho : other = key
      · simpa [ho] using ih
      · have hb : (other == key) = false := by simpa using ho
        simpa [List.lookup_cons, hb, ho] using ih
    · by_cases ho : other = key
      · subst ho
        simp [hk]
      · have hb : (other == key) = false := by simpa using ho
        simpa [List.lookup_cons, hb, hk] using ih

theorem find?_put (db : Database) (name other : String) (t : Table) :
    (db.put name t).find? other =
      if Name.folded other = Name.folded name then some t else db.find? other := by
  by_cases h : Name.folded other = Name.folded name
  · simp [put, find?, h]
  · have hb : (Name.folded other == Name.folded name) = false := by simpa using h
    have := find?_drop db name other
    simp only [find?] at this
    simp [put, find?, List.lookup_cons, hb, h, this]

end Database
end Provenance
