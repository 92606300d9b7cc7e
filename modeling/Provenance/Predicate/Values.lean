-- SUMMARY: Predicates on the annotations of elements in memory.
import Provenance.Annotations
import Provenance.Error
import Provenance.Predicate.Expression

/-!
# Predicates on elements in memory

In memory a predicate compares the texts of an element's annotations. Two texts that are both numbers
are ordered as numbers, any others as texts. A missing key only satisfies the test for difference.
-/
namespace Provenance

namespace Operator

/-- The order of two texts, as numbers if both are. -/
def ordered (op : Operator) (actual operand : String) : Bool :=
  match Number.readFloat? actual, Number.readFloat? operand with
  | some x, some y =>
    match op with
    | .greater => x > y
    | .greaterEqual => x ≥ y
    | .less => x < y
    | _ => x ≤ y
  | _, _ =>
    match op with
    | .greater => actual > operand
    | .greaterEqual => actual ≥ operand
    | .less => actual < operand
    | _ => actual ≤ operand

/-- The comparison of an annotation with an operand; `finder` is what a regular expression in the operand
finds. -/
def admitsText (op : Operator) (finder : Option (String → Bool)) (operand actual : String) : Bool :=
  match op with
  | .equal => actual = operand
  | .notEqual => actual ≠ operand
  | .regex => finder.any (· actual)
  | .like => Like.exact operand actual
  | op => op.ordered actual operand

end Operator

namespace Predicate

def admitsValues (p : Predicate) (finder : Option (String → Bool)) (values : Annotations) : Bool :=
  if p.isWildcard then values.values.any (p.operator.admitsText finder p.value)
  else
    match values.get? p.key with
    | none => p.operator = .notEqual
    | some actual => p.operator.admitsText finder p.value actual

/-- Some annotation is compared. -/
def compares (p : Predicate) (values : Annotations) : Bool :=
  if p.isWildcard then !values.values.isEmpty else values.contains p.key

variable [RegexLibrary]

/-- The elements that satisfy the predicate. An invalid regular expression is an error as soon as it
is compared with something. -/
def filterElements {α : Type} (p : Predicate) (values : α → Annotations) (xs : List α) :
    Except Error (List α) :=
  let finder := p.finder?
  if p.isFaulty && xs.any (fun x => p.compares (values x)) then .error .invalidPattern
  else .ok (xs.filter fun x => p.admitsValues finder (values x))

/-- Whether one element satisfies the predicate. -/
def holds (p : Predicate) (values : Annotations) : Except Error Bool := do
  return !(← p.filterElements id [values]).isEmpty

end Predicate
end Provenance
