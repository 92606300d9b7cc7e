-- SUMMARY: Truth values with a third one for comparisons with nulls.
/-!
# Three-valued truth

A comparison with a null is neither true nor false. A row is selected only by a condition that is
true, so `selects` is where the third value disappears.
-/
namespace Provenance

inductive Truth where
  | yes
  | no
  | unknown
  deriving DecidableEq, Inhabited

namespace Truth

def ofBool : Bool → Truth
  | true => yes
  | false => no

protected def not : Truth → Truth
  | yes => no
  | no => yes
  | unknown => unknown

protected def and : Truth → Truth → Truth
  | no, _ => no
  | _, no => no
  | yes, yes => yes
  | _, _ => unknown

protected def or : Truth → Truth → Truth
  | yes, _ => yes
  | _, yes => yes
  | no, no => no
  | _, _ => unknown

/-- A condition selects a row only when it is true. -/
def selects : Truth → Bool
  | yes => true
  | _ => false

@[simp] theorem selects_ofBool (b : Bool) : (ofBool b).selects = b := by cases b <;> rfl

@[simp] theorem selects_and (a b : Truth) : (a.and b).selects = (a.selects && b.selects) := by
  cases a <;> cases b <;> rfl

@[simp] theorem selects_or (a b : Truth) : (a.or b).selects = (a.selects || b.selects) := by
  cases a <;> cases b <;> rfl

theorem not_not (a : Truth) : a.not.not = a := by cases a <;> rfl

end Truth
end Provenance
