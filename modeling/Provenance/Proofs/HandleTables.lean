-- SUMMARY: The stems that the tables of handles are named under, over environments that share saved handles.
import Mathlib.Data.List.TakeWhile
import Mathlib.Data.Set.Defs
import Provenance.Registry.Persistence
import Provenance.Proofs.Frame

/-!
# The tables of saved handles

Environments under several stems save their handles to one table and load them from there. A handle
keeps the tables it was registered with, so an environment may come to hold tables named under stems
that are not its own. The stem, the word for the kind and the name are joined by underscores, which
stems and names may contain as well: `Shadows` says when the end of one stem can be read as the
beginning of a handle under another. That is the only way for two handles to share a table.
-/
namespace Provenance

/-! ## Names of handles -/

theorem isNameRest_of_isNameStart {c : Char} (h : isNameStart c = true) : isNameRest c = true := by
  simp only [isNameStart, isNameRest, Char.isAlphanum, Bool.or_eq_true] at h ⊢
  exact h.imp_left .inl

/-- The text is empty or begins a handle name that goes on. -/
def opensName (s : String) : Bool :=
  match s.toList with
  | [] => true
  | c :: cs => isNameStart c && cs.all isNameRest

/-- What a handle name may follow to give a handle name again. -/
theorem isHandleName_append {s : String} (hs : isHandleName s = true) (w : String) :
    isHandleName (w ++ s) = opensName w := by
  unfold isHandleName opensName
  rw [String.toList_append]
  cases hw : w.toList with
  | nil =>
    rw [List.nil_append]
    exact hs
  | cons c cs =>
    unfold isHandleName at hs
    cases hd : s.toList with
    | nil => simp [hd] at hs
    | cons d ds =>
      simp only [hd, Bool.and_eq_true] at hs
      have hrest : (d :: ds).dropWhile isNameRest = ds.dropWhile isNameRest :=
        List.dropWhile_cons_of_pos (isNameRest_of_isNameStart hs.1)
      rw [List.cons_append]
      simp only [List.dropWhile_append, hrest]
      congr 1
      cases hend : cs.dropWhile isNameRest with
      | nil =>
        have hall : cs.all isNameRest = true := by
          rw [List.all_eq_true]
          exact List.dropWhile_eq_nil_iff.mp hend
        simpa [hall] using hs.2
      | cons x xs =>
        have hall : cs.all isNameRest = false := by
          rw [Bool.eq_false_iff]
          intro hall
          rw [List.dropWhile_eq_nil_iff.mpr (List.all_eq_true.mp hall)] at hend
          cases hend
        simp [hall]

theorem handleName?_some {name : String} (h : isHandleName name = true) :
    handleName? (some name) = some name := by
  simp [handleName?, h]

theorem isHandleName_numbered {stem : String} (hstem : opensName stem = true)
    (hne : stem ≠ "") (n : Nat) : isHandleName (Registry.numbered stem n) = true := by
  have hdigits : ∀ c ∈ (toString n).toList, isNameRest c = true := by
    intro c hc
    have hc : c ∈ Nat.toDigits 10 n := by simpa using hc
    have hdigit : c.isDigit = true := Nat.isDigit_of_mem_toDigits (by decide) (by decide) hc
    simp [isNameRest, Char.isAlphanum, hdigit]
  unfold isHandleName Registry.numbered
  unfold opensName at hstem
  rw [String.toList_append]
  cases hc : stem.toList with
  | nil => exact absurd (String.toList_injective hc) hne
  | cons c cs =>
    simp only [hc, Bool.and_eq_true, List.all_eq_true] at hstem
    have hall : (cs ++ (toString n).toList).dropWhile isNameRest = [] := by
      rw [List.dropWhile_eq_nil_iff]
      intro x hx
      exact (List.mem_append.mp hx).elim (hstem.2 x) (hdigits x)
    simp only [List.cons_append, hstem.1, hall, List.isEmpty_nil, Bool.true_or, Bool.and_true]

/-! ## Names of tables -/

/-- The word for the kind in the names of tables. -/
def HandleKind.word : HandleKind → String
  | .graph => "graph"
  | .metadata => "meta"

/-- The name of one table of a handle that is registered under the stem. -/
def tableName (stem : String) (kind : HandleKind) (name : String) (e : Element) : String :=
  stem ++ "_" ++ kind.word ++ "_" ++ name ++ "_" ++ e.word

/-- The tables that an environment gives to a new handle. -/
def Environment.namedTables (env : Environment) : HandleKind → String → TablePair
  | .graph => env.graphTables
  | .metadata => env.metadataTables

theorem Environment.part_namedTables (env : Environment) (kind : HandleKind) (name : String)
    (e : Element) : (env.namedTables kind name).part e = tableName env.stem kind name e := by
  cases kind <;> cases e <;> simp [namedTables, TablePair.part, graphTables, metadataTables,
    tableName, HandleKind.word, Element.word, String.append_assoc]

theorem toList_tableName (stem : String) (kind : HandleKind) (name : String) (e : Element) :
    (tableName stem kind name e).toList = stem.toList ++ '_' :: (kind.word.toList ++
      '_' :: (name.toList ++ '_' :: e.word.toList)) := by
  simp [tableName]

/-- The stem `other` goes on after `stem` as the table of a handle does: a word for a kind and then,
unless it ends there, the beginning of a name. -/
def Shadows (stem other : String) : Prop :=
  ∃ (kind : HandleKind) (w : String), opensName w = true ∧
    other ++ "_" = stem ++ "_" ++ kind.word ++ "_" ++ w

/-- What the longer text goes on with after the shorter. -/
theorem isPrefixOf?_eq_some_iff {s t : String} {w : List Char} :
    s.toList.isPrefixOf? t.toList = some w ↔ t = s ++ String.ofList w := by
  rw [List.isPrefixOf?_eq_some_iff_append_eq, ← String.toList_inj]
  simp [eq_comm]

theorem shadows_iff {stem other : String} : Shadows stem other ↔
    ∃ kind ∈ [HandleKind.graph, .metadata],
      ((stem ++ "_" ++ kind.word ++ "_").toList.isPrefixOf? (other ++ "_").toList).any
        (fun w => opensName (String.ofList w)) = true := by
  simp only [Option.any_eq_true, isPrefixOf?_eq_some_iff]
  constructor
  · rintro ⟨kind, w, hw, hother⟩
    refine ⟨kind, by cases kind <;> simp, w.toList, ?_, ?_⟩
    · simpa using hother
    · simpa using hw
  · rintro ⟨kind, -, w, hother, hw⟩
    exact ⟨kind, String.ofList w, hw, hother⟩

instance (stem other : String) : Decidable (Shadows stem other) :=
  decidable_of_iff _ shadows_iff.symm

theorem underscore_notMem_word (kind : HandleKind) : '_' ∉ kind.word.toList := by
  cases kind <;> decide

theorem opensName_word (kind : HandleKind) : opensName (kind.word ++ "_") = true := by
  cases kind <;> decide

/-- The underscore in front of the kind is the first after the shorter stem, so the longer stem goes
on with the word for the kind. What is left of it belongs to the handle's name. -/
theorem shadows_of_append {stem other : String} {kind kind' : HandleKind} {name name' : String}
    (hname : isHandleName name = true) (hname' : isHandleName name' = true)
    (hlength : stem.length < other.length)
    (h : stem.toList ++ '_' :: (kind.word.toList ++ '_' :: name.toList) =
      other.toList ++ '_' :: (kind'.word.toList ++ '_' :: name'.toList)) : Shadows stem other := by
  obtain ⟨more, hother⟩ : ∃ more, other.toList = stem.toList ++ more := by
    have hother : other.toList <+: stem.toList ++ '_' :: (kind.word.toList ++ '_' :: name.toList) :=
      h ▸ List.prefix_append _ _
    rw [← String.length_toList, ← String.length_toList] at hlength
    exact (List.prefix_of_prefix_length_le (List.prefix_append _ _) hother hlength.le).imp
      fun more hmore => hmore.symm
  rw [hother, List.append_assoc, List.append_cancel_left_eq] at h
  cases more with
  | nil =>
    rw [List.append_nil] at hother
    rw [String.toList_injective hother] at hlength
    exact absurd hlength (lt_irrefl _)
  | cons c more =>
    obtain ⟨rfl, hafter⟩ := List.cons.inj h
    obtain ⟨w, hmore, hrest⟩ : ∃ w, more ++ ['_'] = kind.word.toList ++ '_' :: w ∧
        name.toList = w ++ (kind'.word.toList ++ '_' :: name'.toList) := by
      obtain ⟨w, hmore, hw⟩ | ⟨w, hword, hw⟩ := List.append_eq_append_iff.mp hafter
      · cases w with
        | nil => exact ⟨[], by simp [hmore], by simpa using hw⟩
        | cons c w =>
          obtain ⟨rfl, hw⟩ := List.cons.inj hw
          exact ⟨w ++ ['_'], by simp [hmore], by simpa using hw⟩
      · cases w with
        | nil => exact ⟨[], by simpa using hword.symm, by simpa using hw.symm⟩
        | cons c w =>
          obtain ⟨rfl, -⟩ := List.cons.inj hw
          exact absurd (by simp [hword]) (underscore_notMem_word kind)
    refine ⟨kind, String.ofList w, ?_, String.toList_injective ?_⟩
    · have hlast : isHandleName (kind'.word ++ "_" ++ name') = true := by
        rw [isHandleName_append hname', opensName_word]
      rw [← isHandleName_append hlast]
      convert hname
      exact String.toList_injective (by simp [hrest])
    · simp [hother, hmore]

theorem append_word_inj {xs ys : List Char} {e e' : Element}
    (h : xs ++ '_' :: e.word.toList = ys ++ '_' :: e'.word.toList) : xs = ys ∧ e = e' := by
  have hend := congrArg List.getLast? h
  have he : e = e' := by
    cases e with
    | vertex =>
      cases e' with
      | vertex => rfl
      | edge => simp [Element.word, List.getLast?_append] at hend
    | edge =>
      cases e' with
      | vertex => simp [Element.word, List.getLast?_append] at hend
      | edge => rfl
  subst he
  exact ⟨List.append_cancel_right h, rfl⟩

theorem append_name_inj {kind kind' : HandleKind} {name name' : String}
    (h : kind.word.toList ++ '_' :: name.toList = kind'.word.toList ++ '_' :: name'.toList) :
    kind = kind' ∧ name = name' := by
  have hkind : kind = kind' := by
    cases kind with
    | graph =>
      cases kind' with
      | graph => rfl
      | metadata => exact absurd (List.cons.inj h).1 (by decide)
    | metadata =>
      cases kind' with
      | graph => exact absurd (List.cons.inj h).1 (by decide)
      | metadata => rfl
  subst hkind
  exact ⟨rfl, String.toList_injective (List.cons.inj (List.append_cancel_left h)).2⟩

/-- Two handles share a table only where one stem shadows the other. -/
theorem eq_or_shadows_of_tableName {stem other : String} {kind kind' : HandleKind}
    {name name' : String} {e e' : Element} (hname : isHandleName name = true)
    (hname' : isHandleName name' = true)
    (h : tableName stem kind name e = tableName other kind' name' e') :
    (kind = kind' ∧ name = name' ∧ e = e') ∨ Shadows stem other ∨ Shadows other stem := by
  have hlists := congrArg String.toList h
  rw [toList_tableName, toList_tableName] at hlists
  obtain ⟨hhandles, rfl⟩ : stem.toList ++ '_' :: (kind.word.toList ++ '_' :: name.toList) =
      other.toList ++ '_' :: (kind'.word.toList ++ '_' :: name'.toList) ∧ e = e' :=
    append_word_inj (by simpa using hlists)
  obtain hlt | heq | hgt := lt_trichotomy stem.length other.length
  · exact .inr (.inl (shadows_of_append hname hname' hlt hhandles))
  · left
    rw [← String.length_toList, ← String.length_toList] at heq
    obtain ⟨-, hafter⟩ := List.append_inj hhandles heq
    obtain ⟨rfl, rfl⟩ := append_name_inj (List.cons.inj hafter).2
    exact ⟨rfl, rfl, rfl⟩
  · exact .inr (.inr (shadows_of_append hname' hname hgt hhandles.symm))

/-- A shadowed stem has a handle whose tables are those of another handle under the other stem. -/
theorem Shadows.exists_tableName {stem other : String} (h : Shadows stem other) :
    ∃ kind name, isHandleName name = true ∧ name ≠ "g" ∧
      ∀ e, tableName stem kind name e = tableName other .graph "g" e := by
  obtain ⟨kind, w, hw, hother⟩ := h
  refine ⟨kind, w ++ "graph_g", ?_, ?_, fun e => ?_⟩
  · rw [isHandleName_append (by decide), hw]
  · intro heq
    have hlength := congrArg String.length heq
    rw [String.length_append, show "graph_g".length = 7 from rfl, show "g".length = 1 from rfl]
      at hlength
    omega
  · calc
      tableName stem kind (w ++ "graph_g") e =
          stem ++ "_" ++ kind.word ++ "_" ++ w ++ "graph_g" ++ "_" ++ e.word := by
        simp [tableName, String.append_assoc]
      _ = other ++ "_" ++ ("graph" ++ "_" ++ "g") ++ "_" ++ e.word := by
        rw [hother]
        rfl
      _ = tableName other .graph "g" e := by
        simp only [tableName, HandleKind.word, String.append_assoc]

end Provenance
