-- SUMMARY: Predicates on annotations, their operators and descriptions.
import Provenance.Text.Quoted

/-!
# Predicates

A predicate compares one annotation, or with the wildcard key every annotation, with a given text.
This module holds the predicates themselves and their description; what they select is defined with
the tables and with the elements in memory.
-/
namespace Provenance

inductive Operator where
  | equal
  | notEqual
  | greater
  | greaterEqual
  | less
  | lessEqual
  | regex
  | like
  deriving DecidableEq

namespace Operator

def all : List Operator :=
  [equal, notEqual, greater, greaterEqual, less, lessEqual, regex, like]

def symbol : Operator → String
  | equal => "="
  | notEqual => "<>"
  | greater => ">"
  | greaterEqual => ">="
  | less => "<"
  | lessEqual => "<="
  | regex => "~"
  | like => "like"

def label : Operator → String
  | equal => "EQUAL"
  | notEqual => "NOT_EQUAL"
  | greater => "GREATER"
  | greaterEqual => "GREATER_EQUAL"
  | less => "LESS"
  | lessEqual => "LESS_EQUAL"
  | regex => "REGEX"
  | like => "LIKE"

def ofSymbol? (s : String) : Option Operator := all.find? (·.symbol = s)

theorem ofSymbol?_symbol (op : Operator) : ofSymbol? op.symbol = some op := by
  cases op <;> decide

end Operator

structure Predicate where
  key : String
  operator : Operator
  value : String
  deriving DecidableEq

namespace Predicate

/-- The key that stands for every annotation. -/
def wildcard : String := "*"

def isWildcard (p : Predicate) : Bool := p.key = wildcard

def describe (p : Predicate) : String :=
  "Predicate(key=" ++ Text.quoted p.key ++ ", operator=<PredicateOperator." ++ p.operator.label ++
    ": " ++ Text.quoted p.operator.symbol ++ ">, value=" ++ Text.quoted p.value ++ ")"

def describeAll (ps : List Predicate) : String :=
  "[" ++ ", ".intercalate (ps.map describe) ++ "]"

end Predicate
end Provenance
