-- SUMMARY: Sets of characters given by ranges of code points.
/-!
# Sets of characters given by ranges

A character class of the Unicode standard is a list of disjoint inclusive ranges of code points in
ascending order.
-/
namespace Provenance.Text

abbrev Ranges := List (Nat × Nat)

namespace Ranges

/-- Membership; the scan stops at the first range that ends at the character or later. -/
def contains : Ranges → Char → Bool
  | [], _ => false
  | (first, last) :: rest, c =>
    if c.toNat ≤ last then first ≤ c.toNat else contains rest c

/-- The range that holds the character. -/
def find? : Ranges → Char → Option (Nat × Nat)
  | [], _ => none
  | (first, last) :: rest, c =>
    if c.toNat ≤ last then (if first ≤ c.toNat then some (first, last) else none)
    else find? rest c

end Ranges
end Provenance.Text
