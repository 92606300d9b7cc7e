-- SUMMARY: The names of new handles are fresh, and the search for them ends.
import Mathlib.Data.List.Perm.Subperm
import Mathlib.Order.Bounds.Defs
import Provenance.Proofs.SavedHandles

/-!
# Fresh names

The name of a new handle is a stem with the first number, from the size of the registry on, whose name
is not taken. The search goes on until it finds one (`Registry.Search`). It ends because no two
numbers give one name, so among as many numbers as there are handles and one more there is a free one,
whatever names were chosen or removed before.
-/
namespace Provenance

/-! ## The search -/

namespace Registry

variable {r : Registry} {stem : String} {n k c : Nat}

/-- The search for a free name from the number `n` on ends at the number `k`, with `c` names tried. -/
inductive Search (r : Registry) (stem : String) : Nat → Nat → Nat → Prop where
  | free {n : Nat} (h : numbered stem n ∉ r.names) : Search r stem n n 1
  | taken {n k c : Nat} (h : numbered stem n ∈ r.names) (rest : Search r stem (n + 1) k c) :
    Search r stem n k (c + 1)

/-- The digits of a number can be read back. -/
theorem numbered_injective (stem : String) : Function.Injective (numbered stem) := by
  intro n k h
  have hdigits := congrArg String.toList h
  simp only [numbered, String.toList_append, List.append_cancel_left_eq] at hdigits
  have hread := congrArg (Nat.ofDigitChars 10 · 0) hdigits
  simpa [Nat.toString_eq_ofList_toDigits] using hread

/-- Not all of `r.size + 1` numbers have names that are taken. -/
theorem exists_free (r : Registry) (stem : String) (n : Nat) :
    ∃ k, n ≤ k ∧ k ≤ n + r.size ∧ numbered stem k ∉ r.names := by
  by_contra hfree
  push Not at hfree
  have hnodup : ((List.range' n (r.size + 1)).map (numbered stem)).Nodup :=
    (List.nodup_range' ..).map (numbered_injective stem)
  have htaken : (List.range' n (r.size + 1)).map (numbered stem) ⊆ r.names := by
    intro name hname
    obtain ⟨k, hk, rfl⟩ := List.mem_map.mp hname
    obtain ⟨hle, hlt⟩ := List.mem_range'_1.mp hk
    exact hfree k hle (by omega)
  have hlength := (hnodup.subperm htaken).length_le
  simp [names, size] at hlength

namespace Search

/-- The search moves on by one number with every name but the last. -/
theorem tried (h : r.Search stem n k c) : n + c = k + 1 := by
  induction h with
  | free => rfl
  | taken _ _ ih => omega

theorem isLeast (h : r.Search stem n k c) :
    IsLeast {k | n ≤ k ∧ numbered stem k ∉ r.names} k := by
  induction h with
  | free h => exact ⟨⟨le_rfl, h⟩, fun _ hk => hk.1⟩
  | @taken n k c h _ ih =>
    obtain ⟨⟨hle, hfree⟩, hleast⟩ := ih
    refine ⟨⟨by omega, hfree⟩, fun k' hk' => ?_⟩
    have hne : n ≠ k' := fun heq => hk'.2 (heq ▸ h)
    exact hleast ⟨by have := hk'.1; omega, hk'.2⟩

end Search

/-- The search within a bound is the search without one, if there is a free name within it. -/
theorem search_freshIndex {fuel : Nat} (hfree : numbered stem k ∉ r.names) (hle : n ≤ k)
    (hbound : k ≤ n + fuel) : ∃ c, r.Search stem n (r.freshIndex stem fuel n) c := by
  induction fuel generalizing n with
  | zero =>
    obtain rfl : n = k := by omega
    exact ⟨1, .free hfree⟩
  | succ fuel ih =>
    unfold freshIndex
    split
    · next h =>
      have htaken := contains_iff_mem_names.mp h
      have hne : n ≠ k := fun heq => hfree (heq ▸ htaken)
      obtain ⟨c, hrest⟩ := ih (n := n + 1) (by omega) (by omega)
      exact ⟨c + 1, .taken htaken hrest⟩
    · next h => exact ⟨1, .free fun htaken => h (contains_iff_mem_names.mpr htaken)⟩

/-- The bound of the search is never what ends it. -/
theorem search_freshName (r : Registry) (stem : String) :
    ∃ n c, r.Search stem r.size n c ∧ r.freshName stem = numbered stem n ∧ n ≤ 2 * r.size := by
  obtain ⟨k, hle, hbound, hfree⟩ := r.exists_free stem r.size
  obtain ⟨c, hsearch⟩ := search_freshIndex hfree hle hbound
  have hleast := hsearch.isLeast.2 ⟨hle, hfree⟩
  exact ⟨_, c, hsearch, rfl, by omega⟩

theorem freshName_notMem (r : Registry) (stem : String) : r.freshName stem ∉ r.names := by
  obtain ⟨n, c, hsearch, hname, -⟩ := r.search_freshName stem
  rw [hname]
  exact hsearch.isLeast.1.2

theorem names_register (r : Registry) (name : String) (tables : TablePair) :
    (r.register name tables).names = if name ∈ r.names then r.names else r.names ++ [name] := by
  unfold register
  by_cases h : r.contains name = true
  · rw [if_pos h, if_pos (contains_iff_mem_names.mp h)]
  · rw [if_neg h, if_neg fun hmem => h (contains_iff_mem_names.mpr hmem)]
    simp [names]

end Registry

/-! ## New handles in a run -/

/-- The name of the new handle of the kind, if the operation makes one. -/
def HandleOperation.newName? (env : Environment) (kind : HandleKind) : HandleOperation → Option String
  | makeNew kind' => if kind' = kind then some (env.makeNew kind).1 else none
  | _ => none

/-- The operation takes no name away. -/
def HandleOperation.KeepsNames : HandleOperation → Prop
  | removeGraph _ | load => False
  | _ => True

namespace Environment

variable {env : Environment} {kind : HandleKind}

/-- The environment after operations, each with what the shared table holds at that time. -/
def follow (env : Environment) (operations : List (HandleTable × HandleOperation)) : Environment :=
  operations.foldl (fun env next => (next.2.apply env next.1).1) env

/-- The names that new handles of a kind get in the course of operations. -/
def newNames (kind : HandleKind) : Environment → List (HandleTable × HandleOperation) → List String
  | _, [] => []
  | env, (stored, operation) :: rest =>
    (operation.newName? env kind).toList ++ newNames kind (operation.apply env stored).1 rest

theorem isHandleName_makeNew (env : Environment) (kind : HandleKind) :
    isHandleName (env.makeNew kind).1 = true := by
  cases kind with
  | graph => exact isHandleName_numbered (by decide) (by decide) _
  | metadata => exact isHandleName_numbered (by decide) (by decide) _

theorem makeNew_notMem (env : Environment) (kind : HandleKind) :
    (env.makeNew kind).1 ∉ (env.registry kind).names := by
  cases kind with
  | graph => exact env.graphs.freshName_notMem "g"
  | metadata => exact env.metadata.freshName_notMem "m"

/-- To make a new handle is to register one under the name found for it. -/
theorem register_makeNew (env : Environment) (kind : HandleKind) :
    env.register kind (some (env.makeNew kind).1) = .ok (env.makeNew kind) := by
  rw [register_some (env.isHandleName_makeNew kind)]
  cases kind <;> rfl

theorem names_add_subset (env : Environment) (kind kind' : HandleKind) (name : String) :
    (env.registry kind').names ⊆ ((env.add kind name).registry kind').names := by
  rw [registry_add]
  split
  · next hkind =>
    subst hkind
    rw [Registry.names_register]
    split
    · exact List.Subset.refl _
    · exact List.subset_append_left _ _
  · exact List.Subset.refl _

theorem mem_names_add (env : Environment) (kind : HandleKind) (name : String) :
    name ∈ ((env.add kind name).registry kind).names := by
  rw [registry_add, if_pos rfl, Registry.names_register]
  split
  · assumption
  · simp

/-- What is registered stays registered. -/
theorem names_subset_apply {operation : HandleOperation} (h : operation.KeepsNames)
    (env : Environment) (stored : HandleTable) (kind : HandleKind) :
    (env.registry kind).names ⊆ ((operation.apply env stored).1.registry kind).names := by
  cases operation with
  | register kind' given =>
    simp only [HandleOperation.apply]
    split
    · next hresult =>
      obtain ⟨name, -, heq⟩ := of_register hresult
      obtain ⟨-, rfl⟩ := Prod.mk.inj heq
      exact env.names_add_subset kind' kind name
    · exact List.Subset.refl _
  | makeNew kind' =>
    cases kind' with
    | graph => exact env.names_add_subset .graph kind _
    | metadata => exact env.names_add_subset .metadata kind _
  | removeGraph => exact h.elim
  | save => exact List.Subset.refl _
  | load => exact h.elim

/-- The name of a new handle is registered from then on. -/
theorem newName_mem_apply {operation : HandleOperation} {name : String}
    (h : operation.newName? env kind = some name) (stored : HandleTable) :
    name ∉ (env.registry kind).names ∧
      name ∈ ((operation.apply env stored).1.registry kind).names := by
  cases operation with
  | makeNew kind' =>
    simp only [HandleOperation.newName?, Option.ite_none_right_eq_some, Option.some.injEq] at h
    obtain ⟨rfl, rfl⟩ := h
    refine ⟨env.makeNew_notMem kind', ?_⟩
    cases kind' with
    | graph => exact env.mem_names_add .graph _
    | metadata => exact env.mem_names_add .metadata _
  | _ => simp [HandleOperation.newName?] at h

/-- While no name is taken away, no new handle gets one that was registered at the beginning, nor one
that a new handle got before. -/
theorem newNames_distinct {operations : List (HandleTable × HandleOperation)}
    (h : ∀ next ∈ operations, next.2.KeepsNames) :
    (newNames kind env operations).Nodup ∧
      ∀ name ∈ newNames kind env operations, name ∉ (env.registry kind).names := by
  induction operations generalizing env with
  | nil => simp [newNames]
  | cons next operations ih =>
    obtain ⟨stored, operation⟩ := next
    obtain ⟨hnodup, hfresh⟩ : (newNames kind (operation.apply env stored).1 operations).Nodup ∧ _ :=
      ih fun next hnext => h next (.tail _ hnext)
    have hkeeps := names_subset_apply (h _ List.mem_cons_self) env stored kind
    have hrest : ∀ name ∈ newNames kind (operation.apply env stored).1 operations,
        name ∉ (env.registry kind).names := fun name hname hmem => hfresh name hname (hkeeps hmem)
    rw [newNames]
    cases hname : operation.newName? env kind with
    | none => exact ⟨hnodup, hrest⟩
    | some name =>
      obtain ⟨hnew, hlater⟩ := newName_mem_apply hname stored
      refine ⟨List.nodup_cons.mpr ⟨fun hmem => hfresh name hmem hlater, hnodup⟩, fun other hother => ?_⟩
      rcases List.mem_cons.mp hother with rfl | hother
      · exact hnew
      · exact hrest other hother

end Environment

/-- In every registry the search ends within one name more than there are handles, at the least number
from the size on whose name is free. So a new handle never gets a name that is registered, whatever
was done before; and as long as nothing is removed or loaded it never gets one a second time. -/
theorem newNames_fresh :
    (∀ (r : Registry) (stem : String), ∃ n c, r.Search stem r.size n c ∧ c ≤ r.size + 1 ∧
      r.freshName stem = Registry.numbered stem n ∧
      IsLeast {n | r.size ≤ n ∧ Registry.numbered stem n ∉ r.names} n ∧ n ≤ 2 * r.size) ∧
    (∀ (env : Environment) (before : List (HandleTable × HandleOperation)) (kind : HandleKind),
      ((env.follow before).makeNew kind).1 ∉ ((env.follow before).registry kind).names ∧
      (env.follow before).register kind (some ((env.follow before).makeNew kind).1) =
        .ok ((env.follow before).makeNew kind) ∧
      ((env.follow before).makeNew kind).1 ∈
        (((env.follow before).makeNew kind).2.registry kind).names) ∧
    ∀ (env : Environment) (operations : List (HandleTable × HandleOperation)) (kind : HandleKind),
      (∀ next ∈ operations, next.2.KeepsNames) →
        (Environment.newNames kind env operations).Nodup ∧
        ∀ name ∈ Environment.newNames kind env operations, name ∉ (env.registry kind).names := by
  refine ⟨fun r stem => ?_, fun env before kind => ?_, fun env operations kind h => ?_⟩
  · obtain ⟨n, c, hsearch, hname, hbound⟩ := r.search_freshName stem
    have htried := hsearch.tried
    exact ⟨n, c, hsearch, by omega, hname, hsearch.isLeast, hbound⟩
  · have hnew := (env.follow before).makeNew_notMem kind
    have hname : (HandleOperation.makeNew kind).newName? (env.follow before) kind =
        some ((env.follow before).makeNew kind).1 := if_pos rfl
    exact ⟨hnew, (env.follow before).register_makeNew kind,
      (Environment.newName_mem_apply hname []).2⟩
  · exact Environment.newNames_distinct h

/-- A name that is registered in between is passed over. -/
theorem newNames_fresh_between :
    let env : Environment := ⟨.standard, Environment.standardStem, .empty, .empty⟩
    let operations : List (HandleTable × HandleOperation) :=
      [([], .makeNew .graph), ([], .register .graph (some "g2")), ([], .makeNew .graph)]
    Environment.newNames .graph env operations = ["g0", "g3"] ∧
      (Environment.newNames .graph env operations).Nodup := by
  intro env operations
  have hkeeps : ∀ next ∈ operations, next.2.KeepsNames := by
    simp [operations, HandleOperation.KeepsNames]
  exact ⟨by decide, (newNames_fresh.2.2 env operations .graph hkeeps).1⟩

end Provenance
