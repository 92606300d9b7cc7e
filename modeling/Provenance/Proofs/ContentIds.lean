-- SUMMARY: The annotations and ends that a content id tells apart.
import Mathlib.Data.List.Basic
import Provenance.Proofs.Sources

/-!
# What a content id identifies

The annotations of an element are hashed as one text, `key:value|` for each key in ascending order.
The text says which annotations it was written from where no key has the sign that ends a key and no
value the sign that ends a value: the text is then read back entry by entry. An edge is hashed with
its endpoints written over two of its keys, so what the edge itself has under these keys is lost.
-/
namespace Provenance

namespace Annotations

variable {a b : Annotations}

/-! ## One text for each key -/

/-- No key has two texts. -/
def Distinct (a : Annotations) : Prop := a.keys.Nodup

instance (a : Annotations) : Decidable a.Distinct := inferInstanceAs (Decidable a.keys.Nodup)

theorem contains_iff_mem_keys {key : String} : a.contains key = true ↔ key ∈ a.keys := by
  simp [contains, get?, keys]

theorem distinct_insert (h : a.Distinct) (key text : String) : (a.insert key text).Distinct := by
  unfold insert
  split
  · simpa only [Distinct, keys, keys_replace] using h
  · next hnew =>
    rw [contains_iff_mem_keys] at hnew
    simpa [Distinct, keys, List.nodup_append] using ⟨h, fun key' text' hmem heq =>
      hnew (List.mem_map.mpr ⟨(key', text'), hmem, heq⟩)⟩

theorem distinct_foldl_insert (h : a.Distinct) (entries : List (String × String)) :
    (entries.foldl (fun a entry => a.insert entry.1 entry.2) a).Distinct := by
  induction entries generalizing a with
  | nil => exact h
  | cons entry entries ih => exact ih (distinct_insert h entry.1 entry.2)

theorem distinct_ofPresent (given : List (String × Scalar)) : (ofPresent given).Distinct :=
  distinct_foldl_insert (a := empty) List.nodup_nil _

theorem Distinct.get?_eq_some_iff (h : a.Distinct) {key text : String} :
    a.get? key = some text ↔ (key, text) ∈ a.entries :=
  lookup_eq_some_iff_mem h

/-- Annotations are the same where their entries are, in whatever order. -/
theorem Distinct.perm_iff (ha : a.Distinct) (hb : b.Distinct) :
    a.entries.Perm b.entries ↔ ∀ key, a.get? key = b.get? key := by
  rw [List.perm_ext_iff_of_nodup (.of_map _ ha) (.of_map _ hb)]
  constructor
  · intro hmem key
    apply Option.ext
    intro text
    rw [ha.get?_eq_some_iff, hb.get?_eq_some_iff, hmem]
  · rintro hget ⟨key, text⟩
    rw [← ha.get?_eq_some_iff, ← hb.get?_eq_some_iff, hget]

/-! ## The order of the keys -/

/-- The entries in ascending order of their keys. -/
def sorted (a : Annotations) : List (String × String) :=
  a.entries.mergeSort fun x y => decide (x.1 ≤ y.1)

theorem sorted_perm (a : Annotations) : a.sorted.Perm a.entries := List.mergeSort_perm _ _

theorem pairwise_sorted (a : Annotations) : a.sorted.Pairwise fun x y => x.1 ≤ y.1 := by
  have h : a.sorted.Pairwise fun x y => decide (x.1 ≤ y.1) = true := by
    apply List.pairwise_mergeSort
    · intro x y z hxy hyz
      exact decide_eq_true (String.le_trans (of_decide_eq_true hxy) (of_decide_eq_true hyz))
    · intro x y
      simpa using String.le_total x.1 y.1
  exact h.imp of_decide_eq_true

/-- The order in which the annotations were given leaves no trace in the sorted entries. -/
theorem Distinct.sorted_eq_iff (ha : a.Distinct) (hb : b.Distinct) :
    a.sorted = b.sorted ↔ ∀ key, a.get? key = b.get? key := by
  rw [← ha.perm_iff hb]
  constructor
  · intro h
    exact a.sorted_perm.symm.trans (h ▸ b.sorted_perm)
  · intro h
    refine List.Perm.eq_of_pairwise ?_ a.pairwise_sorted b.pairwise_sorted
      (a.sorted_perm.trans (h.trans b.sorted_perm.symm))
    intro x y hx hy hxy hyx
    have hx : x ∈ b.entries := h.subset (a.sorted_perm.subset hx)
    exact List.inj_on_of_nodup_map hb hx (b.sorted_perm.subset hy) (String.le_antisymm hxy hyx)

/-! ## Reading the text back -/

/-- No key has the sign that ends a key, and no text the sign that ends a text. -/
def Separable (a : Annotations) : Prop :=
  ∀ entry ∈ a.entries, ':' ∉ entry.1.toList ∧ '|' ∉ entry.2.toList

instance (a : Annotations) : Decidable a.Separable :=
  inferInstanceAs (Decidable (∀ entry ∈ a.entries, ':' ∉ entry.1.toList ∧ '|' ∉ entry.2.toList))

theorem separable_sorted (h : a.Separable) :
    ∀ entry ∈ a.sorted, ':' ∉ entry.1.toList ∧ '|' ∉ entry.2.toList :=
  fun entry hentry => h entry (a.sorted_perm.subset hentry)

theorem toList_hashedEntry (entry : String × String) :
    (hashedEntry entry).toList = entry.1.toList ++ ':' :: (entry.2.toList ++ '|' :: []) := by
  simp [hashedEntry]

/-- What comes before the first separator is the same in both texts, and so is what follows it. -/
theorem append_separator_inj {c : Char} {xs ys xs' ys' : List Char} (hxs : c ∉ xs) (hys : c ∉ ys)
    (h : xs ++ c :: xs' = ys ++ c :: ys') : xs = ys ∧ xs' = ys' := by
  induction xs generalizing ys with
  | nil =>
    cases ys with
    | nil => simpa using h
    | cons y ys =>
      obtain ⟨rfl, -⟩ := List.cons.inj h
      exact absurd List.mem_cons_self hys
  | cons x xs ih =>
    cases ys with
    | nil =>
      obtain ⟨rfl, -⟩ := List.cons.inj h
      exact absurd List.mem_cons_self hxs
    | cons y ys =>
      obtain ⟨rfl, htail⟩ := List.cons.inj h
      obtain ⟨rfl, hrest⟩ := ih (fun hx => hxs (.tail _ hx)) (fun hy => hys (.tail _ hy)) htail
      exact ⟨rfl, hrest⟩

theorem hashedEntry_append_inj {x y : String × String} {xs ys : List Char}
    (hx : ':' ∉ x.1.toList ∧ '|' ∉ x.2.toList) (hy : ':' ∉ y.1.toList ∧ '|' ∉ y.2.toList)
    (h : (hashedEntry x).toList ++ xs = (hashedEntry y).toList ++ ys) : x = y ∧ xs = ys := by
  simp only [toList_hashedEntry, List.append_assoc, List.cons_append, List.nil_append] at h
  obtain ⟨hkey, h⟩ := append_separator_inj hx.1 hy.1 h
  obtain ⟨htext, h⟩ := append_separator_inj hx.2 hy.2 h
  exact ⟨Prod.ext (String.toList_injective hkey) (String.toList_injective htext), h⟩

theorem eq_of_join_hashedEntry {xs ys : List (String × String)}
    (hxs : ∀ x ∈ xs, ':' ∉ x.1.toList ∧ '|' ∉ x.2.toList)
    (hys : ∀ y ∈ ys, ':' ∉ y.1.toList ∧ '|' ∉ y.2.toList)
    (h : (xs.map hashedEntry).flatMap String.toList = (ys.map hashedEntry).flatMap String.toList) :
    xs = ys := by
  induction xs generalizing ys with
  | nil =>
    cases ys with
    | nil => rfl
    | cons y ys => simp [toList_hashedEntry] at h
  | cons x xs ih =>
    cases ys with
    | nil => simp [toList_hashedEntry] at h
    | cons y ys =>
      rw [List.forall_mem_cons] at hxs hys
      simp only [List.map_cons, List.flatMap_cons] at h
      obtain ⟨rfl, hrest⟩ := hashedEntry_append_inj hxs.1 hys.1 h
      rw [ih hxs.2 hys.2 hrest]

theorem hashedText_eq (a : Annotations) :
    a.hashedText = String.join (a.sorted.map hashedEntry) := rfl

/-- The same annotations are hashed as the same text. -/
theorem Distinct.hashedText_eq (ha : a.Distinct) (hb : b.Distinct)
    (h : ∀ key, a.get? key = b.get? key) : a.hashedText = b.hashedText := by
  rw [a.hashedText_eq, b.hashedText_eq, (ha.sorted_eq_iff hb).mpr h]

/-- Annotations without separators in the wrong place are hashed as the same text just if they
are the same. -/
theorem Separable.hashedText_eq_iff (ha : a.Distinct) (hb : b.Distinct) (hsa : a.Separable)
    (hsb : b.Separable) : a.hashedText = b.hashedText ↔ ∀ key, a.get? key = b.get? key := by
  constructor
  · intro h
    rw [← ha.sorted_eq_iff hb]
    apply eq_of_join_hashedEntry (separable_sorted hsa) (separable_sorted hsb)
    rw [← String.toList_join, ← String.toList_join, ← a.hashedText_eq, ← b.hashedText_eq, h]
  · exact ha.hashedText_eq hb

end Annotations

/-! ## Edges -/

namespace Edge

theorem distinct_withEndpoints (child parent : String) {a : Annotations} (h : a.Distinct) :
    (withEndpoints child parent a).Distinct :=
  Annotations.distinct_insert (Annotations.distinct_insert h _ _) _ _

theorem get?_withEndpoints (child parent : String) (a : Annotations) (key : String) :
    (withEndpoints child parent a).get? key =
      if key = parentKey then some parent else if key = childKey then some child
        else a.get? key := by
  simp [withEndpoints, Annotations.get?_insert]

/-- What an edge is hashed with: its endpoints under their keys, its annotations under the others. -/
theorem get?_withEndpoints_eq_iff {child child' parent parent' : String} {a a' : Annotations} :
    (∀ key, (withEndpoints child parent a).get? key = (withEndpoints child' parent' a').get? key) ↔
      child = child' ∧ parent = parent' ∧
        ∀ key, key ≠ childKey → key ≠ parentKey → a.get? key = a'.get? key := by
  simp only [get?_withEndpoints]
  have hne : childKey ≠ parentKey := by decide
  constructor
  · intro h
    refine ⟨?_, ?_, fun key hchild hparent => ?_⟩
    · simpa [hne] using h childKey
    · simpa using h parentKey
    · simpa [hchild, hparent] using h key
  · rintro ⟨rfl, rfl, hother⟩ key
    split
    · rfl
    · next hparent =>
      split
      · rfl
      · next hchild => exact hother key hchild hparent

end Edge

namespace Annotations

/-- Where no key holds `':'` and no text `'|'`, the bytes that are hashed determine annotations. The
id of an edge made without one is the digest of its annotations with the endpoints above them; these
bytes determine the endpoints and all annotations but those under the two keys of the endpoints. In
both cases equal contents are hashed alike. -/
theorem hashed_bytes_identify (a b : Annotations) (id : Option String)
    (child child' parent parent' : String) (given given' : List (String × Scalar)) :
    (a.Distinct → b.Distinct → a.Separable → b.Separable →
      (a.hashedText.toUTF8 = b.hashedText.toUTF8 ↔ ∀ key, a.get? key = b.get? key)) ∧
    (givenId? id = none → (Edge.create id child parent given).id =
      Digest.hashText (Edge.withEndpoints child parent (ofPresent given)).hashedText) ∧
    ((Edge.withEndpoints child parent (ofPresent given)).Separable →
      (Edge.withEndpoints child' parent' (ofPresent given')).Separable →
      ((Edge.withEndpoints child parent (ofPresent given)).hashedText.toUTF8 =
          (Edge.withEndpoints child' parent' (ofPresent given')).hashedText.toUTF8 ↔
        child = child' ∧ parent = parent' ∧ ∀ key, key ≠ childKey → key ≠ parentKey →
          (ofPresent given).get? key = (ofPresent given').get? key)) := by
  refine ⟨?_, ?_, ?_⟩
  · intro ha hb hsa hsb
    exact String.toByteArray_inj.trans (hsa.hashedText_eq_iff ha hb hsb)
  · intro hid
    simp [Edge.create, hid, contentId]
  · intro hs hs'
    have hd := Edge.distinct_withEndpoints child parent (distinct_ofPresent given)
    have hd' := Edge.distinct_withEndpoints child' parent' (distinct_ofPresent given')
    exact String.toByteArray_inj.trans
      ((hs.hashedText_eq_iff hd hd' hs').trans Edge.get?_withEndpoints_eq_iff)

/-- The order of the annotations makes no difference to what is hashed, the direction of an edge
does. -/
theorem hashed_bytes_identify_used :
    (⟨[("type", "Used"), ("pid", "10")]⟩ : Annotations).hashedText.toUTF8 =
        (⟨[("pid", "10"), ("type", "Used")]⟩ : Annotations).hashedText.toUTF8 ∧
      (Edge.create none "p" "a" [("type", .text "Used")]).id = Digest.hashText
        (Edge.withEndpoints "p" "a" (ofPresent [("type", .text "Used")])).hashedText ∧
      (Edge.withEndpoints "p" "a" (ofPresent [("type", .text "Used")])).hashedText.toUTF8 ≠
        (Edge.withEndpoints "a" "p" (ofPresent [("type", .text "Used")])).hashedText.toUTF8 := by
  obtain ⟨horder, hid, hends⟩ := hashed_bytes_identify ⟨[("type", "Used"), ("pid", "10")]⟩
    ⟨[("pid", "10"), ("type", "Used")]⟩ none "p" "a" "a" "p" [("type", .text "Used")]
    [("type", .text "Used")]
  refine ⟨?_, hid rfl, fun h => ?_⟩
  · refine (horder (by decide) (by decide) (by decide) (by decide)).mpr fun key => ?_
    by_cases htype : key = "type"
    · subst htype; rfl
    · by_cases hpid : key = "pid"
      · subst hpid; rfl
      · simp [get?, List.lookup_cons, beq_false_of_ne htype, beq_false_of_ne hpid]
  · exact absurd ((hends (by decide) (by decide)).mp h).1 (by decide)

/-- The separators are written as they are inside keys and texts, and an edge's endpoints over its
annotations: different contents are hashed as the same bytes. -/
theorem separators_and_endpoints_collide :
    ((⟨[("a", "b|c:d")]⟩ : Annotations).hashedText.toUTF8 =
        (⟨[("a", "b"), ("c", "d")]⟩ : Annotations).hashedText.toUTF8 ∧
      (⟨[("a", "b|c:d")]⟩ : Annotations).get? "c" ≠
        (⟨[("a", "b"), ("c", "d")]⟩ : Annotations).get? "c") ∧
    ((⟨[("a:b", "c")]⟩ : Annotations).hashedText.toUTF8 =
        (⟨[("a", "b:c")]⟩ : Annotations).hashedText.toUTF8 ∧
      (⟨[("a:b", "c")]⟩ : Annotations).get? "a" ≠ (⟨[("a", "b:c")]⟩ : Annotations).get? "a") ∧
    ((Edge.create none "u" "w" [(childKey, .text "x")]).values.hashedText.toUTF8 =
        (Edge.create none "u" "w" []).values.hashedText.toUTF8 ∧
      (Edge.create none "u" "w" [(childKey, .text "x")]).get? childKey ≠
        (Edge.create none "u" "w" []).get? childKey) := by
  have hone (key text : String) : (⟨[(key, text)]⟩ : Annotations).hashedText =
      hashedEntry (key, text) := by simp [hashedText_eq, sorted, String.join]
  refine ⟨⟨?_, by decide⟩, ⟨?_, by decide⟩, ?_, by decide⟩
  · have htwo : (⟨[("a", "b"), ("c", "d")]⟩ : Annotations).sorted = [("a", "b"), ("c", "d")] :=
      List.mergeSort_of_pairwise (by decide)
    rw [hone, hashedText_eq, htwo]
    rfl
  · rw [hone, hone]
    rfl
  · rfl

end Annotations
end Provenance
