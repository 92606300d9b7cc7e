-- SUMMARY: The comparison of two runs, with the scratch tables that they leave.
import Provenance.Proofs.Effects
import Provenance.Proofs.IdTables

/-!
# Two runs

A run of one program is compared with a run of another, each from a store of its own. The relation
`R` between their databases is up to the user. About scratch tables the comparison keeps what an
instruction can learn: which roles its own request has. What other requests left behind may differ,
since no program reads it.

`Program.Alike` says that, from stores that compare so, both programs answer alike or stop with the
same error, and that the stores compare afterwards too. There is one rule for each way in which programs
are put together.
-/
namespace Provenance

/-! ## Outcomes -/

/-- Both answer, as `q` says, or both fail in the same way. -/
inductive Except.Alike {α β : Type} (q : α → β → Prop) : Except Error α → Except Error β → Prop
  | ok {a : α} {b : β} (h : q a b) : Alike q (.ok a) (.ok b)
  | error (e : Error) : Alike q (.error e) (.error e)

namespace Except.Alike

variable {α β γ δ : Type} {q : α → β → Prop} {x : Except Error α} {x' : Except Error β}

theorem mono {q' : α → β → Prop} (h : Alike q x x') (hq : ∀ a b, q a b → q' a b) :
    Alike q' x x' := by
  cases h with
  | ok h => exact .ok (hq _ _ h)
  | error e => exact .error e

theorem bind {q' : γ → δ → Prop} {f : α → Except Error γ} {f' : β → Except Error δ}
    (h : Alike q x x') (hf : ∀ a b, x = .ok a → x' = .ok b → q a b → Alike q' (f a) (f' b)) :
    Alike q' (x >>= f) (x' >>= f') := by
  cases h with
  | ok h => exact hf _ _ rfl rfl h
  | error e => exact .error e

/-- A check before the rest, with the same result in both. -/
theorem guard {c c' : Prop} [Decidable c] [Decidable c'] {e : Error} {f : γ → Except Error α}
    {f' : δ → Except Error β} (hc : c ↔ c') (h : ¬ c → Alike q x x') :
    Alike q (if c then throw e >>= f else x) (if c' then throw e >>= f' else x') := by
  by_cases hcase : c
  · rw [if_pos hcase, if_pos (hc.mp hcase)]
    exact .error e
  · rw [if_neg hcase, if_neg (mt hc.mpr hcase)]
    exact h hcase

theorem of_eq {x x' : Except Error α} (h : x = x') : Alike (· = ·) x x' := by
  subst h
  cases x with
  | ok a => exact .ok rfl
  | error e => exact .error e

theorem eq {x x' : Except Error α} (h : Alike (· = ·) x x') : x = x' := by
  cases h with
  | ok h => rw [h]
  | error e => rfl

end Except.Alike

/-! ## Stores -/

/-- Where two runs are: outside of any request, or each within one of its own. -/
inductive Phase
  | idle
  | busy (request request' : Nat)

/-- What two runs start from: the beginning of the names of scratch tables, and the roles of those that
there are in each store. -/
structure Origin where
  stem : String
  roles : List String
  roles' : List String

/-- The scratch tables of two stores. What has come since the start has the same roles in both. Within a
request, its own tables stand at the end. -/
def Phase.Compares (o : Origin) : Phase → Store → Store → Prop
  | idle, s, s' => s.FreshRequests ∧ s'.FreshRequests ∧ ∃ left,
      s.scratch.map (·.role) = o.roles ++ left ∧ s'.scratch.map (·.role) = o.roles' ++ left
  | busy request request', s, s' => ∃ (old old' : List ScratchTable) (left created : List String),
      (∀ t ∈ old, t.request < request) ∧ (∀ t ∈ old', t.request < request') ∧
      old.map (·.role) = o.roles ++ left ∧ old'.map (·.role) = o.roles' ++ left ∧
      s.scratch = old ++ created.map (ScratchTable.mk request) ∧
      s'.scratch = old' ++ created.map (ScratchTable.mk request') ∧
      s.requests = request + 1 ∧ s'.requests = request' + 1

/-- Stores from which two runs go on alike. -/
structure Store.Twins (R : Database → Database → Prop) (o : Origin) (phase : Phase) (s s' : Store) :
    Prop where
  database : R s.database s'.database
  stem : s.scratchStem = o.stem
  stem' : s'.scratchStem = o.stem
  scratch : phase.Compares o s s'

namespace Store.Twins

variable {R : Database → Database → Prop} {o : Origin} {phase : Phase}
  {s s' : Store}

theorem write {db db' : Database} (h : Twins R o phase s s') (hR : R db db') :
    Twins R o phase { s with database := db } { s' with database := db' } := by
  refine ⟨hR, h.stem, h.stem', ?_⟩
  cases phase <;> exact h.scratch

/-- Both runs make their next request. -/
theorem newRequest (h : Twins R o .idle s s') :
    Twins R o (.busy s.requests s'.requests) { s with requests := s.requests + 1 }
      { s' with requests := s'.requests + 1 } := by
  obtain ⟨hfresh, hfresh', left, hleft, hleft'⟩ := h.scratch
  exact ⟨h.database, h.stem, h.stem', s.scratch, s'.scratch, left, [], hfresh, hfresh', hleft, hleft',
    by simp, by simp, rfl, rfl⟩

variable {request request' : Nat}

/-- Without an own table of the role there comes one in both. -/
theorem create {role : String} (h : Twins R o (.busy request request') s s') :
    Twins R o (.busy request request')
      (if !s.scratch.contains ⟨request, role⟩ then
        { s with scratch := s.scratch ++ [⟨request, role⟩] } else s)
      (if !s'.scratch.contains ⟨request', role⟩ then
        { s' with scratch := s'.scratch ++ [⟨request', role⟩] } else s') := by
  obtain ⟨hR, hstem, hstem', old, old', left, created, hold, hold', hleft, hleft', hs, hs', hn, hn'⟩ := h
  have hmem {old : List ScratchTable} {request : Nat} (hold : ∀ t ∈ old, t.request < request) :
      ⟨request, role⟩ ∈ old ++ created.map (ScratchTable.mk request) ↔ role ∈ created := by
    have hout : (⟨request, role⟩ : ScratchTable) ∉ old := fun hin => absurd (hold _ hin) (by simp)
    simp [hout]
  have hiff := hmem hold
  have hiff' := hmem hold'
  rw [← hs] at hiff
  rw [← hs'] at hiff'
  by_cases hrole : role ∈ created
  · rw [if_neg (by simpa using hiff.mpr hrole), if_neg (by simpa using hiff'.mpr hrole)]
    exact ⟨hR, hstem, hstem', old, old', left, created, hold, hold', hleft, hleft', hs, hs', hn, hn'⟩
  · rw [if_pos (by simpa using mt hiff.mp hrole), if_pos (by simpa using mt hiff'.mp hrole)]
    exact ⟨hR, hstem, hstem', old, old', left, created ++ [role], hold, hold', hleft, hleft', by simp [hs],
      by simp [hs'], hn, hn'⟩

/-- After a failure the tables stay. -/
theorem abandon (h : Twins R o (.busy request request') s s') :
    Twins R o .idle s s' := by
  obtain ⟨hR, hstem, hstem', old, old', left, created, hold, hold', hleft, hleft', hs, hs', hn, hn'⟩ := h
  have hfresh {s : Store} {old : List ScratchTable} {request : Nat}
      (hold : ∀ t ∈ old, t.request < request)
      (hs : s.scratch = old ++ created.map (ScratchTable.mk request))
      (hn : s.requests = request + 1) : s.FreshRequests := by
    intro t ht
    rw [hn]
    rw [hs] at ht
    rcases List.mem_append.mp ht with ht | ht
    · exact Nat.lt_succ_of_lt (hold t ht)
    · obtain ⟨role, _, rfl⟩ := List.mem_map.mp ht
      exact Nat.lt_succ_self request
  refine ⟨hR, hstem, hstem', hfresh hold hs hn, hfresh hold' hs' hn', left ++ created, ?_, ?_⟩
  · simp [hs, hleft, Function.comp_def]
  · simp [hs', hleft', Function.comp_def]

/-- The tables of a request go, but for roles that it does not name. -/
theorem dropScratch {own : List String} (h : Twins R o (.busy request request') s s') :
    Twins R o .idle (s.dropScratch request own) (s'.dropScratch request' own) := by
  obtain ⟨hR, hstem, hstem', old, old', left, created, hold, hold', hleft, hleft', hs, hs', hn, hn'⟩ := h
  have hrest {s : Store} {old : List ScratchTable} {request : Nat}
      (hold : ∀ t ∈ old, t.request < request)
      (hs : s.scratch = old ++ created.map (ScratchTable.mk request)) :
      (s.dropScratch request own).scratch =
        old ++ (created.filter fun role => !own.contains role).map (ScratchTable.mk request) := by
    have hkeep : old.filter (fun t => !(t.request = request && own.contains t.role)) = old := by
      apply List.filter_eq_self.mpr
      intro t ht
      simp [Nat.ne_of_lt (hold t ht)]
    simp only [Store.dropScratch, hs, List.filter_append, hkeep]
    simp [List.filter_map, Function.comp_def]
  exact abandon (o := o) ⟨hR, hstem, hstem', old, old', left,
    created.filter fun role => !own.contains role, hold, hold', hleft, hleft', hrest hold hs,
    hrest hold' hs', hn, hn'⟩

end Store.Twins

/-- The beginning of a name that may be given is one too. -/
theorem Name.isGivable_of_append {a b : String} (h : isGivable (a ++ b) = true) :
    isGivable a = true := by
  simp only [isGivable, Bool.and_eq_true, Bool.not_eq_true', isWritable] at h ⊢
  obtain ⟨hwritable, hstem⟩ := h
  refine ⟨by simp_all, ?_⟩
  rw [Bool.eq_false_iff] at hstem ⊢
  intro hprefix
  apply hstem
  rw [List.isPrefixOf_iff_prefix] at hprefix ⊢
  simp only [folded, Text.lower, String.toList_ofList, String.toList_append, List.map_append]
    at hprefix ⊢
  exact hprefix.trans (List.prefix_append _ _)

/-- Whether the name of a scratch table may be given does not depend on its request. -/
theorem Store.isGivable_scratchName_eq {s s' : Store} (hstem : s'.scratchStem = s.scratchStem)
    (request request' : Nat) (role : String) :
    Name.isGivable (s'.scratchName ⟨request', role⟩) =
      Name.isGivable (s.scratchName ⟨request, role⟩) := by
  have hname (stem : String) (n : Nat) :
      Name.isGivable (ScratchNames.name stem (toString n) role) = true ↔
        Name.isGivable (stem ++ "_" ++ role ++ "_") = true := by
    unfold ScratchNames.name
    refine ⟨fun h => ?_, fun h => Name.isGivable_append h (Name.isWritable_toString n)⟩
    exact Name.isGivable_of_append h
  rw [Bool.eq_iff_iff, Store.scratchName, Store.scratchName, hname, hname, hstem]

/-! ## Programs -/

namespace Program

theorem perform_query {α : Type} (select : Database → Except Error α) (s : Store) :
    (query select).perform s = (select s.database, s) := by
  change (MonadExcept.ofExcept (select s.database) : Program α).perform s = _
  cases select s.database <;> rfl

theorem perform_createScratch (request : Nat) (role : String) (s : Store) :
    (createScratch request role).perform s =
      if !Name.isGivable (s.scratchName ⟨request, role⟩) then (.error .statementFailed, s)
      else (.ok (), if !s.scratch.contains ⟨request, role⟩ then
        { s with scratch := s.scratch ++ [⟨request, role⟩] } else s) := by
  unfold createScratch
  refine (perform_bind_of_ok (m := get) (a := s) rfl).trans ?_
  dsimp only
  split
  · rfl
  · split <;> rfl

theorem perform_withScratch {α : Type} (own : List String) (body : Nat → Program α) (s : Store) :
    (withScratch own body).perform s =
      match (body s.requests).perform { s with requests := s.requests + 1 } with
      | (.ok a, s₁) => (.ok a, s₁.dropScratch s.requests own)
      | (.error e, s₁) => (.error e, s₁) := by
  unfold withScratch
  refine (perform_bind_of_ok (m := newRequest) (a := s.requests) rfl).trans ?_
  cases hm : (body s.requests).perform { s with requests := s.requests + 1 } with
  | mk outcome s₁ =>
    cases outcome with
    | ok a =>
      rw [perform_bind_of_ok hm]
      rfl
    | error e => rw [perform_bind_of_error hm]

variable {α β γ δ : Type} {R : Database → Database → Prop} {o : Origin}
  {phase : Phase} {q : α → β → Prop}

open Store

/-- From twin stores, both programs answer as `q` says or fail in the same way, and leave twins. -/
def Alike (R : Database → Database → Prop) (o : Origin) (phase : Phase) (q : α → β → Prop)
    (m : Program α) (m' : Program β) : Prop :=
  ∀ s s', Twins R o phase s s' →
    Except.Alike q (m.perform s).1 (m'.perform s').1 ∧
      Twins R o phase (m.perform s).2 (m'.perform s').2

namespace Alike

theorem pure {a : α} {b : β} (h : q a b) : Alike R o phase q (Pure.pure a) (Pure.pure b) :=
  fun _ _ hs => ⟨.ok h, hs⟩

theorem throw (e : Error) :
    Alike R o phase q (MonadExcept.throw e) (MonadExcept.throw e) :=
  fun _ _ hs => ⟨.error e, hs⟩

theorem mono {q' : α → β → Prop} {m : Program α} {m' : Program β}
    (h : Alike R o phase q m m') (hq : ∀ a b, q a b → q' a b) :
    Alike R o phase q' m m' :=
  fun s s' hs => ⟨(h s s' hs).1.mono hq, (h s s' hs).2⟩

theorem bind {q' : γ → δ → Prop} {m : Program α} {m' : Program β} {f : α → Program γ}
    {f' : β → Program δ} (h : Alike R o phase q m m')
    (hf : ∀ a b, q a b → Alike R o phase q' (f a) (f' b)) :
    Alike R o phase q' (m >>= f) (m' >>= f') := by
  intro s s' hs
  have hm := h s s' hs
  cases hrun : m.perform s with
  | mk outcome s₁ =>
    cases hrun' : m'.perform s' with
    | mk outcome' s₁' =>
      rw [hrun, hrun'] at hm
      obtain ⟨houtcome, hs₁⟩ := hm
      cases houtcome with
      | ok hq =>
        rw [perform_bind_of_ok hrun, perform_bind_of_ok hrun']
        exact hf _ _ hq _ _ hs₁
      | error e =>
        rw [perform_bind_of_error hrun, perform_bind_of_error hrun']
        exact ⟨.error e, hs₁⟩

theorem ite {c : Prop} [Decidable c] {m₁ m₂ : Program α} {m₁' m₂' : Program β}
    (h : c → Alike R o phase q m₁ m₁') (h' : ¬ c → Alike R o phase q m₂ m₂') :
    Alike R o phase q (if c then m₁ else m₂) (if c then m₁' else m₂') := by
  by_cases hc : c
  · rw [if_pos hc, if_pos hc]
    exact h hc
  · rw [if_neg hc, if_neg hc]
    exact h' hc

/-- A check before the rest. -/
theorem guard {c : Prop} [Decidable c] {e : Error} {f : γ → Program α} {f' : γ → Program β}
    {m : Program α} {m' : Program β} (h : Alike R o phase q m m') :
    Alike R o phase q (if c then MonadExcept.throw e >>= f else m)
      (if c then MonadExcept.throw e >>= f' else m') :=
  ite (fun _ => bind (q := fun _ _ => False) (throw e) fun _ _ hfalse => hfalse.elim) fun _ => h

/-- What is looked up before the first statement. -/
theorem lookup {x : Except Error α} {x' : Except Error β} (h : Except.Alike q x x') :
    Alike R o phase q (MonadLiftT.monadLift x) (MonadLiftT.monadLift x') := by
  cases h with
  | ok h => exact pure h
  | error e => exact throw e

/-- Both look up the same. -/
theorem sameLookup (x : Except Error α) :
    Alike R o phase (fun a b => a = b ∧ x = .ok a) (MonadLiftT.monadLift x)
      (MonadLiftT.monadLift x) := by
  cases x with
  | ok a => exact pure ⟨rfl, rfl⟩
  | error e => exact throw e

theorem query {select : Database → Except Error α} {select' : Database → Except Error β}
    (h : ∀ db db', R db db' → Except.Alike q (select db) (select' db')) :
    Alike R o phase q (Program.query select) (Program.query select') := by
  intro s s' hs
  rw [perform_query, perform_query]
  exact ⟨h _ _ hs.database, hs⟩

theorem update {write write' : Database → Except Error Database}
    (h : ∀ db db', R db db' → Except.Alike R (write db) (write' db')) :
    Alike R o phase (fun _ _ => True) (Program.update write) (Program.update write') := by
  intro s s' hs
  have hwrite := h _ _ hs.database
  rw [perform_update, perform_update]
  generalize write s.database = x at hwrite ⊢
  generalize write' s'.database = x' at hwrite ⊢
  cases hwrite with
  | ok hR => exact ⟨.ok trivial, hs.write hR⟩
  | error e => exact ⟨.error e, hs⟩

theorem forM {items : List γ} {body body' : γ → Program Unit}
    (h : ∀ x ∈ items, Alike R o phase (fun _ _ => True) (body x) (body' x)) :
    Alike R o phase (fun _ _ => True) (items.forM body) (items.forM body') := by
  induction items with
  | nil => exact pure trivial
  | cons x rest ih =>
    exact bind (h x (by simp)) fun _ _ _ => ih fun y hy => h y (by simp [hy])

/-- Over items of which each is related to that in its place. -/
theorem forM_related {p : γ → δ → Prop} {items : List γ} {items' : List δ}
    {body : γ → Program Unit} {body' : δ → Program Unit} (hitems : List.Forall₂ p items items')
    (h : ∀ x y, p x y → Alike R o phase (fun _ _ => True) (body x) (body' y)) :
    Alike R o phase (fun _ _ => True) (items.forM body) (items'.forM body') := by
  induction hitems with
  | nil => exact pure trivial
  | cons hxy _ ih => exact bind (h _ _ hxy) fun _ _ _ => ih

theorem mapM {items : List γ} {body : γ → Program α} {body' : γ → Program β}
    (h : ∀ x ∈ items, Alike R o phase q (body x) (body' x)) :
    Alike R o phase (List.Forall₂ q) (items.mapM body) (items.mapM body') := by
  induction items with
  | nil => exact pure .nil
  | cons x rest ih =>
    rw [List.mapM_cons, List.mapM_cons]
    refine bind (h x (by simp)) fun a b hab => ?_
    refine bind (ih fun y hy => h y (by simp [hy])) fun as bs habs => ?_
    exact pure (.cons hab habs)

/-- The items kept so far are handed on. -/
theorem filterAuxM {items : List γ} {keep keep' : γ → Program Bool}
    (h : ∀ x ∈ items, Alike R o phase (· = ·) (keep x) (keep' x)) (kept : List γ) :
    Alike R o phase (· = ·) (items.filterAuxM keep kept) (items.filterAuxM keep' kept) := by
  induction items generalizing kept with
  | nil => exact pure rfl
  | cons x rest ih =>
    refine bind (h x (by simp)) fun b b' hb => ?_
    subst hb
    exact ih (fun y hy => h y (by simp [hy])) _

theorem filterM {items : List γ} {keep keep' : γ → Program Bool}
    (h : ∀ x ∈ items, Alike R o phase (· = ·) (keep x) (keep' x)) :
    Alike R o phase (· = ·) (items.filterM keep) (items.filterM keep') :=
  bind (filterAuxM h []) fun _ _ heq => pure (heq ▸ rfl)

/-- One of the runs does something more, which changes nothing. -/
theorem more {c : γ} {m : Program α} {more : Program γ} {f : γ → Program β}
    (hmore : ∀ s s', Twins R o phase s s' → more.perform s' = (.ok c, s'))
    (h : Alike R o phase q m (f c)) : Alike R o phase q m (more >>= f) := by
  intro s s' hs
  rw [perform_bind_of_ok (hmore s s' hs)]
  exact h s s' hs

/-- One item more, which is not kept. -/
theorem filterM_insert {before after : List γ} {x : γ} {keep keep' : γ → Program Bool}
    (h : ∀ y ∈ before ++ after, Alike R o phase (· = ·) (keep y) (keep' y))
    (hx : ∀ s s', Twins R o phase s s' → (keep' x).perform s' = (.ok false, s')) :
    Alike R o phase (· = ·) ((before ++ after).filterM keep)
      ((before ++ x :: after).filterM keep') := by
  suffices haux : ∀ kept : List γ, Alike R o phase (· = ·)
      ((before ++ after).filterAuxM keep kept) ((before ++ x :: after).filterAuxM keep' kept) from
    bind (haux []) fun _ _ heq => pure (heq ▸ rfl)
  induction before with
  | nil => exact fun kept => more hx (filterAuxM h kept)
  | cons y rest ih =>
    intro kept
    refine bind (h y (by simp)) fun b b' hb => ?_
    subst hb
    exact ih (fun z hz => h z (List.mem_cons_of_mem y hz)) _

/-! ### Scratch tables -/

variable {request request' : Nat}

theorem createScratch (role : String) :
    Alike R o (.busy request request') (fun _ _ => True)
      (Program.createScratch request role) (Program.createScratch request' role) := by
  intro s s' hs
  have hname := isGivable_scratchName_eq (hs.stem'.trans hs.stem.symm) request request' role
  rw [perform_createScratch, perform_createScratch, hname]
  split
  · exact ⟨.error _, hs⟩
  · exact ⟨.ok trivial, hs.create⟩

theorem createScratches (own : List String) :
    Alike R o (.busy request request') (fun _ _ => True)
      (own.forM (Program.createScratch request)) (own.forM (Program.createScratch request')) :=
  forM fun role _ => createScratch role

/-- Both bodies run within a request. -/
theorem withScratch {own : List String} {body : Nat → Program α} {body' : Nat → Program β}
    (h : ∀ request request', Alike R o (.busy request request') q (body request)
      (body' request')) :
    Alike R o .idle q (Program.withScratch own body) (Program.withScratch own body') := by
  intro s s' hs
  have hbody := h _ _ _ _ hs.newRequest
  rw [perform_withScratch, perform_withScratch]
  cases hm : (body s.requests).perform { s with requests := s.requests + 1 } with
  | mk outcome s₁ =>
    cases hm' : (body' s'.requests).perform { s' with requests := s'.requests + 1 } with
    | mk outcome' s₁' =>
      rw [hm, hm'] at hbody
      obtain ⟨houtcome, hs₁⟩ := hbody
      cases houtcome with
      | ok hq => exact ⟨.ok hq, hs₁.dropScratch⟩
      | error e => exact ⟨.error e, hs₁.abandon⟩

/-- From stores that differ in their tables only. -/
theorem same_start {m m' : Program α} {s : Store} {db : Database} (hfresh : s.FreshRequests)
    (hR : R s.database db)
    (h : Alike R ⟨s.scratchStem, s.scratch.map (·.role), s.scratch.map (·.role)⟩ .idle (· = ·) m m') :
    (m'.perform { s with database := db }).1 = (m.perform s).1 ∧
      R (m.perform s).2.database (m'.perform { s with database := db }).2.database ∧
      (m'.perform { s with database := db }).2.scratchRoles = (m.perform s).2.scratchRoles := by
  obtain ⟨houtcome, htwins⟩ := h s { s with database := db }
    ⟨hR, rfl, rfl, hfresh, hfresh, [], by simp, by simp⟩
  obtain ⟨_, _, left, hleft, hleft'⟩ := htwins.scratch
  refine ⟨houtcome.eq.symm, htwins.database, ?_⟩
  rw [Store.scratchRoles, Store.scratchRoles, hleft.trans hleft'.symm]

end Alike
end Program
end Provenance
