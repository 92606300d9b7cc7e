-- SUMMARY: Libraries of regular expressions, and what a predicate asks of one.
import Provenance.Predicate.Basic
import Provenance.Pattern.Like
import Provenance.Pattern.Reader

/-!
# Regular expressions in predicates

Which patterns are regular expressions, and where they are found, is left to a library. The operand of a
regular-expression predicate is given to it once for all comparisons; other operands are not read as
expressions.
-/
namespace Provenance

/-- A library of regular expressions. -/
class RegexLibrary where
  /-- The texts in which a pattern is found; none if the pattern is no regular expression. -/
  finder? : String → Option (String → Bool)

/-- The library for the core of the syntax: alternatives, groups, classes, anchors and counted
repetitions. -/
instance coreRegexLibrary : RegexLibrary where
  finder? pattern := (Regex.parse? pattern).map fun r text => r.search text.toList

namespace Predicate

variable [RegexLibrary]

/-- What the pattern of a regular-expression predicate finds. -/
def finder? (p : Predicate) : Option (String → Bool) :=
  if p.operator = .regex then RegexLibrary.finder? p.value else none

/-- The predicate asks for a regular expression that is none. -/
def isFaulty (p : Predicate) : Bool := p.operator = .regex && p.finder?.isNone

end Predicate
end Provenance
