-- SUMMARY: Names of tables and columns: folding of case, and which names a statement can contain.
import Provenance.Text.Blank

/-!
# Names of tables and columns

Names are told apart without regard to the case of ASCII letters. A statement cannot contain the null
character, so neither can a name in it, and names with one beginning belong to the database itself.
-/
namespace Provenance.Name

/-- The form that the spellings of one name share. -/
def folded (name : String) : String := String.ofList (Text.lower name.toList)

/-- Two spellings of one name. -/
def same (a b : String) : Bool := folded a = folded b

/-- No two names of the list are the same. -/
def allDistinct (names : List String) : Bool :=
  let forms := names.map folded
  forms.eraseDups.length = forms.length

/-- A text that may stand in a statement. -/
def isWritable (s : String) : Bool := !s.toList.contains '\x00'

/-- The beginning of names that are not given to new tables. -/
def reservedStem : String := "sqlite_"

/-- A name that a new table may have. -/
def isGivable (name : String) : Bool :=
  isWritable name && !reservedStem.toList.isPrefixOf (folded name).toList

end Provenance.Name
