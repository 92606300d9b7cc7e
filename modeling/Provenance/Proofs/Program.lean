-- SUMMARY: The rules for programs that succeed and for programs that fail.
import Provenance.Store
import Mathlib.Data.List.Basic

/-!
# Programs that succeed

`wp m Q s` says that the program `m` succeeds when it is started in the store `s`, and that `Q`
holds of what it returns and of the store that it leaves. There is one rule for each way in which
programs are put together, and one for each kind of statement.
-/
namespace Provenance

@[simp] theorem ok_bind {α β : Type} (a : α) (f : α → Except Error β) : (Except.ok a >>= f) = f a :=
  rfl

@[simp] theorem pure_eq_ok {α : Type} (a : α) : (pure a : Except Error α) = .ok a := rfl

namespace Program

variable {α β : Type} {s : Store}

def wp (m : Program α) (Q : α → Store → Prop) (s : Store) : Prop :=
  ∃ a s', m.perform s = (.ok a, s') ∧ Q a s'

theorem perform_bind_of_ok {m : Program α} {f : α → Program β} {a : α} {s' : Store}
    (h : m.perform s = (.ok a, s')) : (m >>= f).perform s = (f a).perform s' := by
  have hrun : StateT.run (ExceptT.run m) s = (.ok a, s') := h
  simp only [perform, ExceptT.run_bind, StateT.run_bind, hrun]
  rfl

theorem perform_bind_of_error {m : Program α} {f : α → Program β} {e : Error} {s' : Store}
    (h : m.perform s = (.error e, s')) : (m >>= f).perform s = (.error e, s') := by
  have hrun : StateT.run (ExceptT.run m) s = (.error e, s') := h
  simp only [perform, ExceptT.run_bind, StateT.run_bind, hrun]
  rfl

theorem perform_update (write : Database → Except Error Database) (s : Store) :
    (update write).perform s =
      match write s.database with
      | .ok db => (.ok (), { s with database := db })
      | .error e => (.error e, s) := by
  change ((MonadExcept.ofExcept (write s.database) : Program Database) >>= fun db =>
    set { s with database := db }).perform s = _
  cases write s.database <;> rfl

namespace wp

theorem pure {a : α} {Q : α → Store → Prop} (h : Q a s) : wp (Pure.pure a) Q s :=
  ⟨a, s, rfl, h⟩

theorem bind {m : Program α} {f : α → Program β} {Q : β → Store → Prop}
    (h : wp m (fun a => wp (f a) Q) s) : wp (m >>= f) Q s := by
  obtain ⟨a, s', hm, b, s'', hf, hQ⟩ := h
  exact ⟨b, s'', (perform_bind_of_ok hm).trans hf, hQ⟩

theorem mono {m : Program α} {P Q : α → Store → Prop} (h : wp m P s)
    (hPQ : ∀ a s', P a s' → Q a s') : wp m Q s := by
  obtain ⟨a, s', hm, hP⟩ := h
  exact ⟨a, s', hm, hPQ a s' hP⟩

theorem and {m : Program α} {P Q : α → Store → Prop} (h : wp m P s) (h' : wp m Q s) :
    wp m (fun a s' => P a s' ∧ Q a s') s := by
  obtain ⟨a, s', hm, hP⟩ := h
  obtain ⟨a', s'', hm', hQ⟩ := h'
  obtain ⟨rfl, rfl⟩ : a = a' ∧ s' = s'' := by simpa using hm.symm.trans hm'
  exact ⟨a, s', hm, hP, hQ⟩

theorem get {Q : Store → Store → Prop} (h : Q s s) : wp MonadState.get Q s := ⟨s, s, rfl, h⟩

theorem put {s' : Store} {Q : PUnit → Store → Prop} (h : Q ⟨⟩ s') : wp (MonadStateOf.set s') Q s :=
  ⟨⟨⟩, s', rfl, h⟩

theorem modifyGet {f : Store → α × Store} {Q : α → Store → Prop} (h : Q (f s).1 (f s).2) :
    wp (MonadState.modifyGet f) Q s :=
  ⟨(f s).1, (f s).2, rfl, h⟩

/-- What was looked up before the first statement. -/
theorem ofExcept {x : Except Error α} {a : α} {Q : α → Store → Prop} (hx : x = .ok a) (h : Q a s) :
    wp (MonadLiftT.monadLift x) Q s := by
  subst hx
  exact ⟨a, s, rfl, h⟩

theorem query {select : Database → Except Error α} {a : α} {Q : α → Store → Prop}
    (hs : select s.database = .ok a) (h : Q a s) : wp (Program.query select) Q s := by
  refine ⟨a, s, ?_, h⟩
  change (MonadExcept.ofExcept (select s.database) : Program α).perform s = _
  rw [hs]
  rfl

theorem update {write : Database → Except Error Database} {db : Database} {Q : Unit → Store → Prop}
    (hw : write s.database = .ok db) (h : Q () { s with database := db }) :
    wp (Program.update write) Q s := by
  refine ⟨(), { s with database := db }, ?_, h⟩
  rw [perform_update, hw]

/-- A loop keeps an invariant that speaks of the items done so far. -/
theorem forM {items : List β} {body : β → Program Unit} (I : List β → Store → Prop)
    (hstart : I [] s)
    (hstep : ∀ done x s', done ++ [x] <+: items → I done s' →
      wp (body x) (fun _ => I (done ++ [x])) s') :
    wp (items.forM body) (fun _ => I items) s := by
  -- induction on the items left, for any items done
  suffices h : ∀ done rest s', done ++ rest = items → I done s' →
      wp (rest.forM body) (fun _ => I items) s' from h [] items s rfl hstart
  intro done rest
  induction rest generalizing done with
  | nil =>
    intro s' hitems hI
    rw [List.append_nil] at hitems
    exact .pure (hitems ▸ hI)
  | cons x rest ih =>
    intro s' hitems hI
    have hitems' : done ++ [x] ++ rest = items := by simpa using hitems
    refine .bind ((hstep done x s' ⟨rest, hitems'⟩ hI).mono fun _ s'' hI' => ?_)
    exact ih (done ++ [x]) s'' hitems' hI'

/-- A loop of questions that are answered one after another. -/
theorem mapM_query {items : List β} {select : β → Database → Except Error α} {f : β → α}
    {Q : List α → Store → Prop} (h : ∀ x ∈ items, select x s.database = .ok (f x))
    (hQ : Q (items.map f) s) : wp (items.mapM fun x => Program.query (select x)) Q s := by
  induction items generalizing Q with
  | nil => exact .pure hQ
  | cons x rest ih =>
    rw [List.mapM_cons]
    refine .bind (.query (h x List.mem_cons_self) (.bind (ih (fun y hy => ?_) (.pure hQ))))
    exact h y (List.mem_cons_of_mem x hy)

/-- Items are kept by what is answered for them. -/
theorem filterM_query {items : List β} {select : β → Database → Except Error Bool} {f : β → Bool}
    {Q : List β → Store → Prop} (h : ∀ x ∈ items, select x s.database = .ok (f x))
    (hQ : Q (items.filter f) s) : wp (items.filterM fun x => Program.query (select x)) Q s := by
  -- the items kept so far are handed on in reverse
  suffices haux : ∀ kept : List β, wp (items.filterAuxM (fun x => Program.query (select x)) kept)
      (fun all s' => all = (items.filter f).reverse ++ kept ∧ s' = s) s by
    refine .bind ((haux []).mono fun all s' hall => .pure ?_)
    obtain ⟨rfl, rfl⟩ := hall
    simpa using hQ
  clear hQ
  induction items with
  | nil => exact fun kept => .pure ⟨rfl, rfl⟩
  | cons x rest ih =>
    intro kept
    refine .bind (.query (h x List.mem_cons_self) ?_)
    refine (ih (fun y hy => h y (List.mem_cons_of_mem x hy)) _).mono fun all s' hall => ?_
    cases hx : f x <;> simpa [hx] using hall

end wp

/-! ## Both outcomes -/

/-- `R` holds of what comes of the program, an answer or an error, and of the store that it leaves. -/
def yields (m : Program α) (R : Except Error α → Store → Prop) (s : Store) : Prop :=
  R (m.perform s).1 (m.perform s).2

namespace yields

variable {R : Except Error α → Store → Prop}

theorem of_wp {m : Program α} (h : wp m (fun a => R (.ok a)) s) : yields m R s := by
  obtain ⟨a, s', hm, hR⟩ := h
  rwa [yields, hm]

theorem of_error {m : Program α} {e : Error} {s' : Store} (h : m.perform s = (.error e, s'))
    (hR : R (.error e) s') : yields m R s := by
  rwa [yields, h]

/-- After a beginning that succeeds, what comes of the rest. -/
theorem bind {m : Program β} {f : β → Program α} (h : wp m (fun b => yields (f b) R) s) :
    yields (m >>= f) R s := by
  obtain ⟨b, s', hm, hf⟩ := h
  rwa [yields, perform_bind_of_ok hm]

/-- A check before the rest. -/
theorem guard {c : Prop} [Decidable c] {e : Error} {f : β → Program α} {m : Program α}
    (herror : c → R (.error e) s) (h : ¬ c → yields m R s) :
    yields (if c then MonadExcept.throw e >>= f else m) R s := by
  by_cases hc : c
  · rw [if_pos hc]
    exact of_error (perform_bind_of_error rfl) (herror hc)
  · rw [if_neg hc]
    exact h hc

end yields

/-! ## What success tells -/

theorem perform_bind_eq_ok {m : Program α} {f : α → Program β} {b : β} {s'' : Store}
    (h : (m >>= f).perform s = (.ok b, s'')) :
    ∃ a s', m.perform s = (.ok a, s') ∧ (f a).perform s' = (.ok b, s'') := by
  cases hm : m.perform s with
  | mk outcome s' =>
    cases outcome with
    | ok a => exact ⟨a, s', rfl, (perform_bind_of_ok hm).symm.trans h⟩
    | error e => exact absurd ((perform_bind_of_error hm).symm.trans h) (by simp)

end Program
end Provenance
