import Flowscript.Fault
import Mathlib.Data.List.Basic
import Mathlib.Data.List.Forall2

/-!
# Results and runs that may fail

A result may be a fault, and a step on a state may end in one. If a result or a run in several
parts is there, so are its parts.
-/

namespace Flowscript

open List

section Results

variable {ε α β : Type} {x : Except ε α} {f : β → α → Except ε β} {b : β} {items : List α}

theorem ok_of_bind {f : α → Except ε β} (h : x >>= f = .ok b) :
    ∃ a, x = .ok a ∧ f a = .ok b := by
  cases x with
  | error e => cases h
  | ok a => exact ⟨a, rfl, h⟩

theorem ok_bind (a : α) (f : α → Except ε β) : (Except.ok a >>= f) = f a := rfl

theorem ok_of_map {f : α → β} (h : x.map f = .ok b) :
    ∃ a, x = .ok a ∧ f a = b := by
  cases x with
  | error e => cases h
  | ok a => exact ⟨a, rfl, Except.ok.inj h⟩

theorem toOption_eq_some_iff {a : α} : x.toOption = some a ↔ x = .ok a := by
  cases x <;> simp [Except.toOption]

theorem foldlM_invariant (P : β → Prop) (hstep : ∀ b, ∀ a ∈ items, ∀ b', P b → f b a = .ok b' → P b')
    {b' : β} (hb : P b) (h : items.foldlM f b = .ok b') : P b' := by
  induction items generalizing b with
  | nil => exact Except.ok.inj h ▸ hb
  | cons a rest ih =>
    obtain ⟨c, hc, hrest⟩ := ok_of_bind h
    exact ih (fun b a' ha' => hstep b a' (mem_cons_of_mem _ ha'))
      (hstep b a mem_cons_self c hb hc) hrest

theorem foldlM_ok (P : List α → β → Prop) (items : List α)
    (hstep : ∀ done a rest b, items = done ++ a :: rest → P done b →
      ∃ b', f b a = .ok b' ∧ P (done ++ [a]) b')
    (hb : P [] b) :
    ∃ b', items.foldlM f b = .ok b' ∧ P items b' := by
  suffices h : ∀ done rest b, items = done ++ rest → P done b →
      ∃ b', rest.foldlM f b = .ok b' ∧ P items b' from h [] items b rfl hb
  intro done rest
  induction rest generalizing done with
  | nil =>
    intro b hitems hb
    exact ⟨b, rfl, by rwa [hitems, append_nil]⟩
  | cons a rest ih =>
    intro b hitems hb
    obtain ⟨c, hc, hPc⟩ := hstep done a rest b hitems hb
    obtain ⟨b', hb', hP⟩ := ih (done ++ [a]) c (by simpa using hitems) hPc
    exact ⟨b', by rw [foldlM_cons, hc]; exact hb', hP⟩

theorem foldlM_eq_ok (h : ∀ a ∈ items, f b a = .ok b) : items.foldlM f b = .ok b := by
  induction items with
  | nil => rfl
  | cons a rest ih =>
    rw [foldlM_cons, h a mem_cons_self]
    exact ih fun a' ha' => h a' (mem_cons_of_mem _ ha')

theorem foldlM_map_state {γ : Type} {g : γ → α → Except ε γ} (h : β → γ)
    (hstep : ∀ b a, g (h b) a = (f b a).map h) (items : List α) (b : β) :
    items.foldlM g (h b) = (items.foldlM f b).map h := by
  induction items generalizing b with
  | nil => rfl
  | cons a rest ih =>
    rw [foldlM_cons, foldlM_cons, hstep]
    cases f b a with
    | error e => rfl
    | ok c => exact ih c

theorem mapM_eq_map {f : α → Except ε β} {g : α → β} (h : ∀ a ∈ items, f a = .ok (g a)) :
    items.mapM f = .ok (items.map g) := by
  induction items with
  | nil => rfl
  | cons a rest ih =>
    rw [mapM_cons, h a mem_cons_self, ok_bind,
      ih fun a' ha' => h a' (mem_cons_of_mem _ ha')]
    rfl

theorem filterM_eq_filter {p : α → Except ε Bool} {q : α → Bool} (h : ∀ a ∈ items, p a = .ok (q a)) :
    items.filterM p = .ok (items.filter q) := by
  have haux : ∀ acc, items.filterAuxM p acc = .ok ((items.filter q).reverse ++ acc) := by
    induction items with
    | nil => exact fun acc => rfl
    | cons a rest ih =>
      intro acc
      rw [List.filterAuxM, h a mem_cons_self, ok_bind, ih fun b hb => h b (mem_cons_of_mem _ hb),
        filter_cons]
      cases q a <;> simp
  unfold List.filterM
  rw [haux, ok_bind, append_nil, reverse_reverse]
  rfl

theorem exists_of_mem_mapM {f : α → Except ε β} {bs : List β} (h : items.mapM f = .ok bs) (hb : b ∈ bs) :
    ∃ a ∈ items, f a = .ok b := by
  induction items generalizing bs with
  | nil =>
    cases h
    cases hb
  | cons a rest ih =>
    rw [mapM_cons] at h
    obtain ⟨c, hc, h⟩ := ok_of_bind h
    obtain ⟨cs, hcs, h⟩ := ok_of_bind h
    cases h
    rcases mem_cons.mp hb with rfl | hrest
    · exact ⟨a, mem_cons_self, hc⟩
    · obtain ⟨a', ha', hf⟩ := ih hcs hrest
      exact ⟨a', mem_cons_of_mem _ ha', hf⟩

theorem exists_mem_of_forall₂ {R : α → β → Prop} {as : List α} {bs : List β}
    (h : List.Forall₂ R as bs) {a : α} (ha : a ∈ as) : ∃ b ∈ bs, R a b := by
  induction h with
  | nil => cases ha
  | cons hab _ ih =>
    obtain rfl | ha := mem_cons.mp ha
    · exact ⟨_, mem_cons_self, hab⟩
    · obtain ⟨b, hb, hr⟩ := ih ha
      exact ⟨b, mem_cons_of_mem _ hb, hr⟩

end Results

section Runs

variable {σ α β : Type} {s s' s'' : σ} {x : ExceptT Fault (StateM σ) α} {f : α → ExceptT Fault (StateM σ) β}
  {a : α} {b : β} {items : List α}

theorem run_bind (x : ExceptT Fault (StateM σ) α) (f : α → ExceptT Fault (StateM σ) β) (s : σ) :
    (x >>= f).run s = match x.run s with
      | (.ok a, s') => (f a).run s'
      | (.error e, s') => (.error e, s') := by
  unfold ExceptT.run
  simp only [bind, ExceptT.bind, ExceptT.mk, StateT.bind, ExceptT.bindCont]
  cases x s with
  | mk result s' => cases result <;> rfl

theorem run_bind_ok (h : x.run s = (.ok a, s')) : (x >>= f).run s = (f a).run s' := by
  rw [run_bind, h]

theorem run_bind_error {e : Fault} (h : x.run s = (.error e, s')) : (x >>= f).run s = (.error e, s') := by
  rw [run_bind, h]

theorem of_run_bind (h : (x >>= f).run s = (.ok b, s'')) :
    ∃ a s', x.run s = (.ok a, s') ∧ (f a).run s' = (.ok b, s'') := by
  rw [run_bind] at h
  rcases hx : x.run s with ⟨e | a, s'⟩ <;> rw [hx] at h
  · cases h
  · exact ⟨a, s', rfl, h⟩

theorem snd_run_bind_pure (x : ExceptT Fault (StateM σ) α) (f : α → β) (s : σ) :
    ((x >>= fun a => pure (f a)).run s).2 = (x.run s).2 := by
  rw [run_bind]
  cases x.run s with
  | mk result s' => cases result <;> rfl

theorem run_get (s : σ) : (get : ExceptT Fault (StateM σ) σ).run s = (.ok s, s) := rfl

theorem run_modify (f : σ → σ) (s : σ) :
    (modify f : ExceptT Fault (StateM σ) PUnit).run s = (.ok ⟨⟩, f s) := rfl

theorem run_tryCatch (x : ExceptT Fault (StateM σ) α) (handle : Fault → ExceptT Fault (StateM σ) α)
    (s : σ) : (tryCatch x handle).run s = match x.run s with
      | (.ok a, s') => (.ok a, s')
      | (.error e, s') => (handle e).run s' := by
  unfold ExceptT.run
  simp only [tryCatch, tryCatchThe, MonadExceptOf.tryCatch, ExceptT.tryCatch, ExceptT.mk, bind,
    StateT.bind]
  cases x s with
  | mk result s' => cases result <;> rfl

theorem of_run_pure {b : α} (h : (pure a : ExceptT Fault (StateM σ) α).run s = (.ok b, s')) :
    a = b ∧ s = s' := by
  cases h
  exact ⟨rfl, rfl⟩

theorem of_run_foldlM {f : β → α → ExceptT Fault (StateM σ) β} (P : List α → β → σ → Prop)
    (hstep : ∀ done a rest b s b' s', items = done ++ a :: rest → P done b s →
      (f b a).run s = (.ok b', s') → P (done ++ [a]) b' s')
    {b' : β} (hb : P [] b s) (h : (items.foldlM f b).run s = (.ok b', s')) : P items b' s' := by
  suffices hrest : ∀ done rest b s, items = done ++ rest → P done b s →
      (rest.foldlM f b).run s = (.ok b', s') → P items b' s' from hrest [] items b s rfl hb h
  clear h hb
  intro done rest
  induction rest generalizing done with
  | nil =>
    intro b s hitems hb h
    obtain ⟨rfl, rfl⟩ := of_run_pure h
    rwa [hitems, append_nil]
  | cons a rest ih =>
    intro b s hitems hb h
    obtain ⟨c, s₁, hc, hrest⟩ := of_run_bind h
    exact ih (done ++ [a]) c s₁ (by simpa using hitems) (hstep done a rest b s c s₁ hitems hb hc) hrest

theorem of_run_forIn {body : α → PUnit → ExceptT Fault (StateM σ) (ForInStep PUnit)} (P : σ → Prop)
    (hround : ∀ a ∈ items, ∀ s step s', P s → (body a ⟨⟩).run s = (.ok step, s') → P s') (hs : P s)
    (h : (forIn items ⟨⟩ body).run s = (.ok ⟨⟩, s')) : P s' := by
  induction items generalizing s with
  | nil =>
    obtain ⟨-, rfl⟩ := of_run_pure h
    exact hs
  | cons a rest ih =>
    rw [forIn_cons] at h
    obtain ⟨step, s₁, hstep, h⟩ := of_run_bind h
    have hs₁ := hround a mem_cons_self s step s₁ hs hstep
    cases step with
    | done _ =>
      obtain ⟨-, rfl⟩ := of_run_pure h
      exact hs₁
    | yield _ => exact ih (fun b hb => hround b (mem_cons_of_mem _ hb)) hs₁ h

theorem run_foldlM_ok {f : β → α → ExceptT Fault (StateM σ) β}
    (hstep : ∀ a ∈ items, ∀ b s, ∃ b' s', (f b a).run s = (.ok b', s')) (b : β) (s : σ) :
    ∃ b' s', (items.foldlM f b).run s = (.ok b', s') := by
  induction items generalizing b s with
  | nil => exact ⟨b, s, rfl⟩
  | cons a rest ih =>
    obtain ⟨c, s₁, hc⟩ := hstep a mem_cons_self b s
    rw [foldlM_cons, run_bind_ok hc]
    exact ih (fun a ha => hstep a (mem_cons_of_mem _ ha)) c s₁

theorem run_mapM_ok (P : σ → Prop) (R : α → β → Prop)
    (hstep : ∀ a ∈ items, ∀ s, P s → ∃ b s', (f a).run s = (.ok b, s') ∧ P s' ∧ R a b) (hs : P s) :
    ∃ bs s', (items.mapM f).run s = (.ok bs, s') ∧ P s' ∧ List.Forall₂ R items bs := by
  induction items generalizing s with
  | nil => exact ⟨[], s, rfl, hs, .nil⟩
  | cons a rest ih =>
    obtain ⟨b, s₁, hb, hs₁, hR⟩ := hstep a mem_cons_self s hs
    obtain ⟨bs, s₂, hbs, hs₂, hRs⟩ := ih (fun a' ha' => hstep a' (mem_cons_of_mem _ ha')) hs₁
    refine ⟨b :: bs, s₂, ?_, hs₂, .cons hR hRs⟩
    rw [mapM_cons, run_bind_ok hb, run_bind_ok hbs]
    rfl

theorem of_run_mapM {bs : List β} (h : (items.mapM f).run s = (.ok bs, s')) :
    bs.length = items.length ∧ (∀ a ∈ items, ∃ b s₁ s₂, (f a).run s₁ = (.ok b, s₂)) ∧
      ∀ b ∈ bs, ∃ a s₁ s₂, (f a).run s₁ = (.ok b, s₂) := by
  induction items generalizing s s' bs with
  | nil =>
    obtain ⟨rfl, -⟩ := of_run_pure h
    exact ⟨rfl, forall_mem_nil _, forall_mem_nil _⟩
  | cons a rest ih =>
    rw [mapM_cons] at h
    obtain ⟨b, s₁, hb, h⟩ := of_run_bind h
    obtain ⟨bs, s₂, hbs, h⟩ := of_run_bind h
    obtain ⟨rfl, -⟩ := of_run_pure h
    obtain ⟨hlength, hitems, hresults⟩ := ih hbs
    exact ⟨congrArg Nat.succ hlength, forall_mem_cons.mpr ⟨⟨b, s, s₁, hb⟩, hitems⟩,
      forall_mem_cons.mpr ⟨⟨a, s, s₁, hb⟩, hresults⟩⟩

end Runs

/-! ## Properties of steps -/

/-- A property of steps that holds of steps in a row if it holds of each of them. -/
structure Stepwise {σ : Type} (P : {α : Type} → ExceptT Fault (StateM σ) α → Prop) : Prop where
  done {α : Type} (result : Except Fault α) : P (ExceptT.mk (pure result))
  get : P MonadState.get
  bind {α β : Type} {x : ExceptT Fault (StateM σ) α} {f : α → ExceptT Fault (StateM σ) β} :
    P x → (∀ a, P (f a)) → P (x >>= f)

namespace Stepwise

variable {σ α β : Type} {P : {α : Type} → ExceptT Fault (StateM σ) α → Prop} (hP : Stepwise P)
include hP

protected theorem mapM {f : α → ExceptT Fault (StateM σ) β} (hf : ∀ a, P (f a)) (items : List α) :
    P (items.mapM f) := by
  induction items with
  | nil => exact hP.done _
  | cons a rest ih =>
    rw [mapM_cons]
    exact hP.bind (hf a) fun _ => hP.bind ih fun _ => hP.done _

protected theorem forM {f : α → ExceptT Fault (StateM σ) PUnit} (hf : ∀ a, P (f a)) (items : List α) :
    P (items.forM f) := by
  induction items with
  | nil => exact hP.done _
  | cons a rest ih => exact hP.bind (hf a) fun _ => ih

end Stepwise

/-! ## What steps leave alone -/

/-- A step after which a part of the state is as before, whether the step succeeds or fails. -/
def Fixes {σ τ α : Type} (view : σ → τ) (x : ExceptT Fault (StateM σ) α) : Prop :=
  ∀ s, view (x.run s).2 = view s

namespace Fixes

variable {σ τ α β : Type} {view : σ → τ} {f : α → ExceptT Fault (StateM σ) β}

theorem pure (a : α) : Fixes view (Pure.pure a : ExceptT Fault (StateM σ) α) := fun _ => rfl

theorem throw (e : Fault) : Fixes view (MonadExcept.throw e : ExceptT Fault (StateM σ) α) :=
  fun _ => rfl

theorem get : Fixes view (MonadState.get : ExceptT Fault (StateM σ) σ) := fun _ => rfl

theorem run_bind {x : ExceptT Fault (StateM σ) α} (hx : Fixes view x) {s : σ}
    {P : Except Fault β × σ → Prop} (herror : ∀ e s', view s' = view s → P (.error e, s'))
    (hok : ∀ a s', x.run s = (.ok a, s') → view s' = view s → P ((f a).run s')) :
    P ((x >>= f).run s) := by
  have hs := hx s
  rw [Flowscript.run_bind]
  rcases hrun : x.run s with ⟨e | a, s'⟩ <;> rw [hrun] at hs
  · exact herror e s' hs
  · exact hok a s' hrun hs

theorem bind {x : ExceptT Fault (StateM σ) α} {f : α → ExceptT Fault (StateM σ) β}
    (hx : Fixes view x) (hf : ∀ a, Fixes view (f a)) : Fixes view (x >>= f) :=
  fun s => hx.run_bind (P := fun final => view final.2 = view s) (fun _ _ hs => hs)
    fun a s' _ hs => (hf a s').trans hs

theorem view_run_bind (hf : ∀ a, Fixes view (f a)) (x : ExceptT Fault (StateM σ) α) (s : σ) :
    view ((x >>= f).run s).2 = view (x.run s).2 := by
  rw [Flowscript.run_bind]
  rcases hrun : x.run s with ⟨e | a, s'⟩
  · rfl
  · exact hf a s'

theorem stepwise : Stepwise (Fixes view) := ⟨fun _ _ => rfl, fun _ => rfl, bind⟩

end Fixes

/-! ## Measures that never fall -/

def Rising {σ α : Type} (measure : σ → Nat) (x : ExceptT Fault (StateM σ) α) : Prop :=
  ∀ s, measure s ≤ measure (x.run s).2

namespace Rising

variable {σ α β : Type} {measure : σ → Nat}

theorem of_eq {x : ExceptT Fault (StateM σ) α} (h : Fixes measure x) : Rising measure x :=
  fun s => Nat.le_of_eq (h s).symm

theorem bind {x : ExceptT Fault (StateM σ) α} {f : α → ExceptT Fault (StateM σ) β}
    (hx : Rising measure x) (hf : ∀ a, Rising measure (f a)) : Rising measure (x >>= f) := by
  intro s
  have hs := hx s
  rw [run_bind]
  rcases hrun : x.run s with ⟨e | a, s'⟩ <;> rw [hrun] at hs
  · exact hs
  · exact Nat.le_trans hs (hf a s')

theorem stepwise : Stepwise (Rising measure) :=
  ⟨fun _ _ => Nat.le_refl _, fun _ => Nat.le_refl _, bind⟩

end Rising

end Flowscript
