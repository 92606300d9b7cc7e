-- SUMMARY: What holds at either end of a program, and what an instruction may write.
import Provenance.Proofs.Program
import Mathlib.Logic.Relation

/-!
# Effects

`ends m Q E s` says what holds when the program `m` comes to its end in one way or the other: `Q` of
the answer and the store after a success, `E` of the store after a failure. On top of it, `Leaves W
m s` says of a whole instruction that all it does to the database is a series of statements as `W`
describes them, and that of its scratch tables a success leaves none.
-/
namespace Provenance

open Relation

namespace Program

variable {α β : Type} {s : Store}

def ends (m : Program α) (Q : α → Store → Prop) (E : Store → Prop) (s : Store) : Prop :=
  match m.perform s with
  | (.ok a, s') => Q a s'
  | (.error _, s') => E s'

namespace ends

variable {Q : α → Store → Prop} {E : Store → Prop}

theorem of_ok {m : Program α} {a : α} {s' : Store} (h : m.perform s = (.ok a, s')) (hQ : Q a s') :
    ends m Q E s := by
  unfold ends
  rw [h]
  exact hQ

theorem of_error {m : Program α} {e : Error} {s' : Store} (h : m.perform s = (.error e, s'))
    (hE : E s') : ends m Q E s := by
  unfold ends
  rw [h]
  exact hE

theorem ok {m : Program α} {a : α} {s' : Store} (h : ends m Q E s)
    (hm : m.perform s = (.ok a, s')) : Q a s' := by
  unfold ends at h
  rwa [hm] at h

theorem error {m : Program α} {e : Error} {s' : Store} (h : ends m Q E s)
    (hm : m.perform s = (.error e, s')) : E s' := by
  unfold ends at h
  rwa [hm] at h

theorem mono {m : Program α} {Q' : α → Store → Prop} {E' : Store → Prop} (h : ends m Q E s)
    (hQ : ∀ a s', Q a s' → Q' a s') (hE : ∀ s', E s' → E' s') : ends m Q' E' s := by
  cases hm : m.perform s with
  | mk outcome s' =>
    cases outcome with
    | ok a => exact of_ok hm (hQ a s' (h.ok hm))
    | error e => exact of_error hm (hE s' (h.error hm))

/-- What holds however a program ends. -/
theorem always {m : Program α} {P : Store → Prop} (h : ends m (fun _ => P) P s) :
    P (m.perform s).2 := by
  cases hm : m.perform s with
  | mk outcome s' =>
    cases outcome with
    | ok a => exact h.ok hm
    | error e => exact h.error hm

theorem pure {a : α} (h : Q a s) : ends (Pure.pure a) Q E s := of_ok rfl h

theorem throw {e : Error} (h : E s) : ends (MonadExcept.throw e) Q E s := of_error rfl h

theorem bind {m : Program α} {f : α → Program β} {Q : β → Store → Prop}
    (h : ends m (fun a => ends (f a) Q E) E s) : ends (m >>= f) Q E s := by
  cases hm : m.perform s with
  | mk outcome s' =>
    cases outcome with
    | ok a =>
      have hf := h.ok hm
      unfold ends at hf ⊢
      rwa [perform_bind_of_ok hm]
    | error e => exact of_error (perform_bind_of_error hm) (h.error hm)

theorem ite {c : Prop} [Decidable c] {m m' : Program α} (h : c → ends m Q E s)
    (h' : ¬ c → ends m' Q E s) : ends (if c then m else m') Q E s := by
  by_cases hc : c
  · rw [if_pos hc]
    exact h hc
  · rw [if_neg hc]
    exact h' hc

/-- A check before the rest. -/
theorem guard {c : Prop} [Decidable c] {e : Error} {f : β → Program α} {m : Program α} (hE : E s)
    (h : ends m Q E s) : ends (if c then MonadExcept.throw e >>= f else m) Q E s :=
  ite (fun _ => bind (throw hE)) fun _ => h

theorem get {Q : Store → Store → Prop} (h : Q s s) : ends MonadState.get Q E s := of_ok rfl h

theorem set {s' : Store} {Q : PUnit → Store → Prop} (h : Q ⟨⟩ s') :
    ends (MonadStateOf.set s') Q E s :=
  of_ok rfl h

theorem modifyGet {f : Store → α × Store} (h : Q (f s).1 (f s).2) :
    ends (MonadState.modifyGet f) Q E s :=
  of_ok rfl h

theorem ofExcept {x : Except Error α} (hE : E s) (hQ : ∀ a, x = .ok a → Q a s) :
    ends (MonadLiftT.monadLift x) Q E s := by
  cases x with
  | ok a => exact of_ok rfl (hQ a rfl)
  | error e => exact of_error rfl hE

theorem query {select : Database → Except Error α} (hE : E s)
    (hQ : ∀ a, select s.database = .ok a → Q a s) : ends (Program.query select) Q E s := by
  apply bind
  apply get
  cases hs : select s.database with
  | ok a => exact of_ok rfl (hQ a hs)
  | error e => exact of_error rfl hE

theorem update {write : Database → Except Error Database} {Q : Unit → Store → Prop} (hE : E s)
    (hQ : ∀ db, write s.database = .ok db → Q () { s with database := db }) :
    ends (Program.update write) Q E s := by
  cases hw : write s.database with
  | ok db => exact of_ok (by rw [perform_update, hw]) (hQ db hw)
  | error e => exact of_error (by rw [perform_update, hw]) hE

/-- What one round of a loop keeps, the whole loop keeps. -/
theorem forM {items : List β} {body : β → Program Unit} {I : Store → Prop} (h : I s)
    (hstep : ∀ x ∈ items, ∀ s', I s' → ends (body x) (fun _ => I) E s') :
    ends (items.forM body) (fun _ => I) E s := by
  induction items generalizing s with
  | nil => exact pure h
  | cons x rest ih =>
    apply bind
    refine (hstep x (by simp) s h).mono (fun _ s' h' => ?_) fun _ h' => h'
    exact ih h' fun y hy => hstep y (by simp [hy])

end ends

/-! ## Programs that read -/

/-- The program changes nothing, and what it answers satisfies `q`. -/
def reads (m : Program α) (q : α → Prop) (s : Store) : Prop :=
  ends m (fun a s' => s' = s ∧ q a) (· = s) s

namespace reads

variable {q : α → Prop} {m : Program α}

theorem pure {a : α} (h : q a) : reads (Pure.pure a) q s := ends.pure ⟨rfl, h⟩

theorem ite {c : Prop} [Decidable c] {m' : Program α} (h : reads m q s) (h' : reads m' q s) :
    reads (if c then m else m') q s :=
  ends.ite (fun _ => h) fun _ => h'

theorem guard {c : Prop} [Decidable c] {e : Error} {f : β → Program α} (h : reads m q s) :
    reads (if c then MonadExcept.throw e >>= f else m) q s :=
  ends.guard rfl h

theorem ofExcept {x : Except Error α} (h : ∀ a, x = .ok a → q a) :
    reads (MonadLiftT.monadLift x) q s :=
  ends.ofExcept rfl fun a ha => ⟨rfl, h a ha⟩

theorem query {select : Database → Except Error α} (h : ∀ a, select s.database = .ok a → q a) :
    reads (Program.query select) q s :=
  ends.query rfl fun a ha => ⟨rfl, h a ha⟩

theorem mono {q' : α → Prop} (h : reads m q s) (hq : ∀ a, q a → q' a) : reads m q' s :=
  ends.mono h (fun a _ ha => ⟨ha.1, hq a ha.2⟩) fun _ hs => hs

/-- What is done with the answer is done in the same store. -/
theorem bind_ends {f : α → Program β} {Q : β → Store → Prop} {E : Store → Prop} (h : reads m q s)
    (hE : E s) (hQ : ∀ a, q a → ends (f a) Q E s) : ends (m >>= f) Q E s := by
  apply ends.bind
  refine ends.mono h (fun a s' ha => ?_) fun s' hs => hs ▸ hE
  obtain ⟨rfl, ha⟩ := ha
  exact hQ a ha

theorem bind {f : α → Program β} {q' : β → Prop} (h : reads m q s)
    (hf : ∀ a, q a → reads (f a) q' s) : reads (m >>= f) q' s :=
  h.bind_ends rfl hf

theorem mapM {items : List β} {body : β → Program α}
    (h : ∀ x ∈ items, reads (body x) q s) :
    reads (items.mapM body) (fun as => ∀ a ∈ as, q a) s := by
  induction items with
  | nil => exact .pure (by simp)
  | cons x rest ih =>
    rw [List.mapM_cons]
    refine .bind (h x (by simp)) fun a ha => ?_
    refine .bind (ih fun y hy => h y (by simp [hy])) fun as has => .pure ?_
    simpa using ⟨ha, has⟩

theorem filterM {items : List β} {keep : β → Program Bool}
    (h : ∀ x ∈ items, reads (keep x) (fun _ => True) s) :
    reads (items.filterM keep) (fun _ => True) s := by
  -- the items kept so far are handed on
  suffices haux : ∀ kept : List β, reads (items.filterAuxM keep kept) (fun _ => True) s from
    .bind (haux []) fun _ _ => .pure trivial
  induction items with
  | nil => exact fun _ => .pure trivial
  | cons x rest ih =>
    intro kept
    refine .bind (h x (by simp)) fun b _ => ?_
    exact ih (fun y hy => h y (by simp [hy])) _

end reads
end Program

/-! ## What happens between two stores -/

/-- The tables that there were have got no other columns, and new rows at the end only. -/
def Database.Grows (db db' : Database) : Prop :=
  ∀ name t, db.find? name = some t → ∃ more, db'.find? name = some (t.append more)

namespace Database.Grows

variable {db db' db'' : Database}

theorem refl (db : Database) : Grows db db :=
  fun _ t h => ⟨[], by simpa [Table.append] using h⟩

theorem trans (h : Grows db db') (h' : Grows db' db'') : Grows db db'' := by
  intro name t ht
  obtain ⟨more, ht'⟩ := h name t ht
  obtain ⟨more', ht''⟩ := h' name _ ht'
  exact ⟨more ++ more', by simpa [Table.append] using ht''⟩

theorem put {name : String} {t : Table} (ht : db.find? name = some t) (more : List Row) :
    Grows db (db.put name (t.append more)) := by
  intro other t' ht'
  by_cases hname : Name.folded other = Name.folded name
  · -- a table is found under every spelling of its name
    have hsame : db.find? other = db.find? name := by rw [find?, find?, hname]
    obtain rfl : t = t' := by simpa [hsame, ht] using ht'
    exact ⟨more, by rw [find?_put, if_pos hname]⟩
  · refine ⟨[], ?_⟩
    rw [find?_put, if_neg hname]
    simpa [Table.append] using ht'

end Database.Grows

/-- The scratch table belongs to the request and has one of the roles. -/
def ScratchTable.IsOf (request : Nat) (roles : List String) (t : ScratchTable) : Prop :=
  t.request = request ∧ t.role ∈ roles

namespace Store

/-- Scratch tables that exist belong to requests that were made. -/
def FreshRequests (s : Store) : Prop := ∀ t ∈ s.scratch, t.request < s.requests

/-- Between two stores there are statements as `W` describes them and new scratch tables of one
owner. -/
structure Footprint (W : Database → Database → Prop) (own : ScratchTable → Prop) (s s' : Store) :
    Prop where
  database : ReflTransGen W s.database s'.database
  requests : s'.requests = s.requests
  scratch : ∃ created, s'.scratch = s.scratch ++ created ∧ ∀ t ∈ created, own t

/-- The store without the scratch tables of a request. -/
def dropScratch (s : Store) (request : Nat) (roles : List String) : Store :=
  { s with scratch := s.scratch.filter fun t => !(t.request = request && roles.contains t.role) }

namespace Footprint

variable {W : Database → Database → Prop} {own : ScratchTable → Prop} {s s' : Store}

theorem refl (s : Store) : Footprint W own s s := ⟨.refl, rfl, [], by simp, by simp⟩

theorem write {db : Database} (h : Footprint W own s s') (hw : W s'.database db) :
    Footprint W own s { s' with database := db } :=
  ⟨h.database.tail hw, h.requests, h.scratch⟩

theorem create {t : ScratchTable} (h : Footprint W own s s') (ht : own t) :
    Footprint W own s { s' with scratch := s'.scratch ++ [t] } := by
  obtain ⟨created, hscratch, hown⟩ := h.scratch
  refine ⟨h.database, h.requests, created ++ [t], ?_, ?_⟩
  · simp [hscratch]
  · intro t' ht'
    rcases List.mem_append.mp ht' with ht' | ht'
    · exact hown t' ht'
    · rwa [List.mem_singleton.mp ht']

section Request

variable {roles : List String}

/-- The next request is fresh, and so is the one after it. -/
theorem freshRequests
    (h : Footprint W (ScratchTable.IsOf s.requests roles) { s with requests := s.requests + 1 } s')
    (hs : s.FreshRequests) : s'.FreshRequests := by
  obtain ⟨created, hscratch, hown⟩ := h.scratch
  intro t ht
  rw [hscratch] at ht
  rw [h.requests]
  rcases List.mem_append.mp ht with ht | ht
  · exact Nat.lt_succ_of_lt (hs t ht)
  · exact (hown t ht).1 ▸ Nat.lt_succ_self _

/-- Dropped are exactly the scratch tables that have come. -/
theorem scratch_dropScratch
    (h : Footprint W (ScratchTable.IsOf s.requests roles) { s with requests := s.requests + 1 } s')
    (hs : s.FreshRequests) : (s'.dropScratch s.requests roles).scratch = s.scratch := by
  obtain ⟨created, hscratch, hown⟩ := h.scratch
  have hold : s.scratch.filter (fun t => !(t.request = s.requests && roles.contains t.role)) =
      s.scratch := by
    apply List.filter_eq_self.mpr
    intro t ht
    simp [Nat.ne_of_lt (hs t ht)]
  have hnew :
      created.filter (fun t => !(t.request = s.requests && roles.contains t.role)) = [] := by
    apply List.filter_eq_nil_iff.mpr
    intro t ht
    obtain ⟨hrequest, hrole⟩ := hown t ht
    simp [hrequest, hrole]
  simp only [dropScratch, hscratch, List.filter_append, hold, hnew, List.append_nil]

end Request
end Footprint

/-- What is left of the store in which an instruction started: statements as `W` describes them have
been run, and the requests of scratch tables are still fresh. -/
structure After (W : Database → Database → Prop) (s s' : Store) : Prop where
  database : ReflTransGen W s.database s'.database
  fresh : s.FreshRequests → s'.FreshRequests

theorem After.refl {W : Database → Database → Prop} (s : Store) : After W s s := ⟨.refl, id⟩

theorem After.mono {W W' : Database → Database → Prop} {s s' : Store} (h : After W s s')
    (hW : ∀ db db', W db db' → W' db db') : After W' s s' :=
  ⟨ReflTransGen.mono hW _ _ h.database, h.fresh⟩

end Store

/-! ## Instructions -/

namespace Program

variable {α : Type} {W : Database → Database → Prop} {s : Store}

open Store

/-- All that the instruction does to the database, however it ends, is done by statements as `W`
describes them. After a success the scratch tables are those that there were. -/
def Leaves (W : Database → Database → Prop) (m : Program α) (s : Store) : Prop :=
  ends m (fun _ s' => After W s s' ∧ (s.FreshRequests → s'.scratch = s.scratch)) (After W s) s

theorem Leaves.mono {W' : Database → Database → Prop} {m : Program α} (h : Leaves W m s)
    (hW : ∀ db db', W db db' → W' db db') : Leaves W' m s :=
  ends.mono h (fun _ _ hs => ⟨hs.1.mono hW, hs.2⟩) fun _ hs => hs.mono hW

/-- Nothing is done. -/
theorem ends.done {a : α} : Leaves W (Pure.pure a) s := .pure ⟨.refl s, fun _ => rfl⟩

/-- Without scratch tables. -/
theorem ends.leaves {m : Program α}
    (h : ends m (fun _ => Footprint W (fun _ => False) s) (Footprint W (fun _ => False) s) s) :
    Leaves W m s := by
  have hscratch {s' : Store} (h : Footprint W (fun _ => False) s s') : s'.scratch = s.scratch := by
    obtain ⟨created, hcreated, hown⟩ := h.scratch
    obtain rfl : created = [] := List.eq_nil_iff_forall_not_mem.mpr hown
    simpa using hcreated
  have hafter {s' : Store} (h : Footprint W (fun _ => False) s s') : After W s s' := by
    refine ⟨h.database, fun hs t ht => ?_⟩
    rw [h.requests]
    exact hs t (hscratch h ▸ ht)
  exact h.mono (fun _ _ h' => ⟨hafter h', fun _ => hscratch h'⟩) fun _ => hafter

theorem reads.leaves {m : Program α} {q : α → Prop} (h : reads m q s) : Leaves W m s := by
  refine ends.mono h (fun _ s' ha => ?_) fun s' hs => ?_
  · obtain ⟨rfl, _⟩ := ha
    exact ⟨.refl s', fun _ => rfl⟩
  · obtain rfl := hs
    exact .refl s'

theorem ends.createScratch {own : ScratchTable → Prop} {s₀ : Store} {request : Nat} {role : String}
    {Q : Unit → Store → Prop} (h : Footprint W own s₀ s) (hown : own ⟨request, role⟩)
    (hQ : ∀ s', s'.database = s.database → Footprint W own s₀ s' → Q () s') :
    ends (Program.createScratch request role) Q (Footprint W own s₀) s := by
  unfold Program.createScratch
  refine .bind (.get (.guard h (.ite (fun _ => ?_) fun _ => ?_)))
  · exact .set (hQ _ rfl (h.create hown))
  · exact .pure (hQ s rfl h)

theorem ends.createScratches {own : ScratchTable → Prop} {s₀ : Store} {request : Nat}
    {roles : List String} {Q : Unit → Store → Prop} (h : Footprint W own s₀ s)
    (hown : ∀ role ∈ roles, own ⟨request, role⟩)
    (hQ : ∀ s', s'.database = s.database → Footprint W own s₀ s' → Q () s') :
    ends (roles.forM (Program.createScratch request)) Q (Footprint W own s₀) s := by
  refine (forM (I := fun s' => s'.database = s.database ∧ Footprint W own s₀ s') ⟨rfl, h⟩
    fun role hrole s' hs' => ?_).mono (fun _ s' hs' => hQ s' hs'.1 hs'.2) fun _ => id
  refine .createScratch hs'.2 (hown role hrole) fun s'' hdb hs'' => ?_
  exact ⟨hdb.trans hs'.1, hs''⟩

/-- Around a body that creates no scratch tables but those of its request and roles. -/
theorem ends.withScratch {roles : List String} {body : Nat → Program α}
    (h : ∀ request s₁, s₁.database = s.database →
      ends (body request) (fun _ => Footprint W (ScratchTable.IsOf request roles) s₁)
        (Footprint W (ScratchTable.IsOf request roles) s₁) s₁) :
    Leaves W (Program.withScratch roles body) s := by
  let s₁ : Store := { s with requests := s.requests + 1 }
  let Body := Footprint W (ScratchTable.IsOf s.requests roles) s₁
  have hrun : ends (Program.withScratch roles body)
      (fun _ s' => ∃ s₂, Body s₂ ∧ s' = s₂.dropScratch s.requests roles) Body s := by
    unfold Program.withScratch Program.newRequest Program.dropScratch
    refine .bind (.modifyGet (.bind ?_))
    refine (h s.requests s₁ rfl).mono (fun a s₂ h₂ => ?_) fun _ => id
    exact .bind (.modifyGet (.pure ⟨s₂, h₂, rfl⟩))
  refine hrun.mono (fun _ s' hs' => ?_) fun s' hs' => ⟨hs'.database, hs'.freshRequests⟩
  obtain ⟨s₂, h₂, rfl⟩ := hs'
  have hscratch (hs : s.FreshRequests) := h₂.scratch_dropScratch hs
  refine ⟨⟨h₂.database, fun hs t ht => ?_⟩, hscratch⟩
  rw [hscratch hs] at ht
  exact h₂.requests ▸ Nat.lt_succ_of_lt (hs t ht)

end Program
end Provenance
