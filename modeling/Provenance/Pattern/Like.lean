-- SUMMARY: Wildcard patterns, matched exactly and without regard to the case of letters.
import Provenance.Pattern.Regex

/-!
# Wildcard patterns

In a wildcard pattern the percent sign stands for any run of characters, the underscore for exactly
one, line ends included, and every other character for itself. Stored annotations are matched without
regard to the case of ASCII letters. Elements in memory are matched exactly, by turning the pattern
into a regular expression.
-/
namespace Provenance.Like

/-- The text and all its tails, the whole first. -/
def suffixes (text : List Char) : List (List Char) :=
  text.foldr (fun c tails => (c :: tails.headD []) :: tails) [[]]

/-- What may be left of a text after one more character of the pattern. The remainders of a text are
listed with the longest first, of which all others are tails. -/
def advance (remainders : List (List Char)) (p : Char) : List (List Char) :=
  if p = '%' then
    match remainders with
    | [] => []
    | longest :: _ => suffixes longest
  else
    remainders.filterMap fun text =>
      match text with
      | [] => none
      | c :: rest => if p = '_' || p = c then some rest else none

/-- The pattern with each run of percent signs made one: a run stands for any run of characters just
as one of them does. -/
def thinned (pattern : List Char) : List Char :=
  pattern.foldr (fun p rest => if p = '%' && rest.head? = some '%' then rest else p :: rest) []

/-- The whole text matches the pattern. -/
def wildcardMatch (pattern text : List Char) : Bool :=
  ((thinned pattern).foldl advance [text]).any List.isEmpty

/-- A text up to its first null character. -/
def untilNull (cs : List Char) : List Char := cs.takeWhile (· ≠ '\x00')

/-- The rule of stored annotations. Pattern and text end at their first null character. -/
def folded (pattern text : String) : Bool :=
  wildcardMatch (untilNull (Text.lower pattern.toList)) (untilNull (Text.lower text.toList))

def partRegex (p : Char) : Regex :=
  if p = '%' then .repeated (.one .any) 0 none
  else if p = '_' then .one .any
  else .one (.exactly p)

def toRegex (pattern : List Char) : Regex :=
  (thinned pattern).foldr (fun p r => .seq (partRegex p) r) .empty

/-- The rule of elements in memory. -/
def exact (pattern text : String) : Bool := (toRegex pattern.toList).fullMatch text.toList

end Provenance.Like
