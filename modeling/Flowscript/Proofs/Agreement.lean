import Flowscript.Proofs.Runs

/-!
# Runs that agree

Two results match if both are faults or both are there, and what they hold is related. Two steps
agree if their results match, whatever the states are that they start from.
-/

namespace Flowscript

open List

variable {σ τ α β γ δ : Type}

/-- Two results that go together: both are faults, related by `E`, or both are there, related by
`R`. -/
inductive Matching (E : Fault → Fault → Prop) (R : α → β → Prop) :
    Except Fault α → Except Fault β → Prop where
  | error {e e' : Fault} (h : E e e') : Matching E R (.error e) (.error e')
  | ok {a : α} {b : β} (h : R a b) : Matching E R (.ok a) (.ok b)

namespace Matching

variable {E E' : Fault → Fault → Prop} {R : α → β → Prop} {R' : γ → δ → Prop} {Q : α → α → Prop}
variable {x : Except Fault α} {y : Except Fault β}

theorem mono {S : α → β → Prop} (hE : ∀ e e', E e e' → E' e e') (hR : ∀ a b, R a b → S a b)
    (h : Matching E R x y) : Matching E' S x y := by
  cases h with
  | error he => exact .error (hE _ _ he)
  | ok hab => exact .ok (hR _ _ hab)

theorem strengthen {S : α → β → Prop} (h : Matching E R x y)
    (hS : ∀ a b, x = .ok a → y = .ok b → R a b → S a b) : Matching E S x y := by
  cases h with
  | error he => exact .error he
  | ok hab => exact .ok (hS _ _ rfl rfl hab)

theorem refl (hQ : ∀ a, Q a a) (x : Except Fault α) : Matching Eq Q x x := by
  cases x with
  | error e => exact .error rfl
  | ok a => exact .ok (hQ a)

theorem trans {y z : Except Fault α} (hQ : ∀ a b c, Q a b → Q b c → Q a c) (h : Matching Eq Q x y)
    (h' : Matching Eq Q y z) : Matching Eq Q x z := by
  cases h with
  | error he =>
    cases h' with
    | error he' => exact .error (he.trans he')
  | ok hab =>
    cases h' with
    | ok hbc => exact .ok (hQ _ _ _ hab hbc)

theorem bind {f : α → Except Fault γ} {g : β → Except Fault δ} (h : Matching E R x y)
    (hfg : ∀ a b, R a b → Matching E R' (f a) (g b)) : Matching E R' (x >>= f) (y >>= g) := by
  cases h with
  | error he => exact .error he
  | ok hab => exact hfg _ _ hab

theorem of_map_eq {f : α → γ} {g : β → γ} (h : x.map f = y.map g) :
    Matching Eq (fun a b => f a = g b) x y := by
  cases x with
  | error e =>
    cases y with
    | error e' => exact .error (Except.error.inj h)
    | ok b => cases h
  | ok a =>
    cases y with
    | error e' => cases h
    | ok b => exact .ok (Except.ok.inj h)

theorem of_iff (h : (∃ a, x = .ok a) ↔ ∃ b, y = .ok b) :
    Matching (fun _ _ => True) (fun _ _ => True) x y := by
  cases x with
  | error e =>
    cases y with
    | error e' => exact .error trivial
    | ok b => obtain ⟨_, ⟨⟩⟩ := h.mpr ⟨b, rfl⟩
  | ok a =>
    cases y with
    | error e' => obtain ⟨_, ⟨⟩⟩ := h.mp ⟨a, rfl⟩
    | ok b => exact .ok trivial

theorem mapM {f : γ → Except Fault α} {g : γ → Except Fault β} (items : List γ)
    (h : ∀ c, Matching E R (f c) (g c)) :
    Matching E (List.Forall₂ R) (items.mapM f) (items.mapM g) := by
  induction items with
  | nil => exact .ok .nil
  | cons c rest ih =>
    rw [mapM_cons, mapM_cons]
    exact (h c).bind fun _ _ hab => ih.bind fun _ _ habs => .ok (.cons hab habs)

end Matching

/-- Two steps whose results go together, whatever states they start from. -/
def Agree (E : Fault → Fault → Prop) (R : α → β → Prop) (x : ExceptT Fault (StateM σ) α)
    (y : ExceptT Fault (StateM τ) β) : Prop :=
  ∀ s t, Matching E R (x.run s).1 (y.run t).1

section Steps

variable {E : Fault → Fault → Prop} {R : α → β → Prop}

theorem agree_pure {a : α} {b : β} (h : R a b) :
    Agree E R (pure a : ExceptT Fault (StateM σ) α) (pure b : ExceptT Fault (StateM τ) β) :=
  fun _ _ => .ok h

theorem agree_check {a : Except Fault α} {b : Except Fault β} (h : Matching E R a b) :
    Agree E R (ExceptT.mk (pure a) : ExceptT Fault (StateM σ) α)
      (ExceptT.mk (pure b) : ExceptT Fault (StateM τ) β) :=
  fun _ _ => h

theorem agree_modify (f : σ → σ) (g : τ → τ) :
    Agree E (fun _ _ => True) (modify f : ExceptT Fault (StateM σ) PUnit)
      (modify g : ExceptT Fault (StateM τ) PUnit) :=
  fun _ _ => .ok trivial

end Steps

namespace Agree

variable {E E' : Fault → Fault → Prop} {R : α → β → Prop} {R' : γ → δ → Prop}
variable {x : ExceptT Fault (StateM σ) α} {y : ExceptT Fault (StateM τ) β}

theorem mono {S : α → β → Prop} (hE : ∀ e e', E e e' → E' e e') (hR : ∀ a b, R a b → S a b)
    (h : Agree E R x y) : Agree E' S x y :=
  fun s t => (h s t).mono hE hR

theorem anyFault (h : Agree E R x y) : Agree (fun _ _ => True) R x y :=
  h.mono (fun _ _ _ => trivial) fun _ _ => id

theorem bind {f : α → ExceptT Fault (StateM σ) γ} {g : β → ExceptT Fault (StateM τ) δ}
    (h : Agree E R x y) (hfg : ∀ a b, R a b → Agree E R' (f a) (g b)) :
    Agree E R' (x >>= f) (y >>= g) := by
  intro s t
  have hxy := h s t
  rw [run_bind, run_bind]
  generalize x.run s = p at hxy
  generalize y.run t = q at hxy
  obtain ⟨a, s'⟩ := p
  obtain ⟨b, t'⟩ := q
  cases hxy with
  | error he => exact .error he
  | ok hab => exact hfg _ _ hab s' t'

theorem tryCatch {F : Fault → Fault → Prop} {h : Fault → ExceptT Fault (StateM σ) α}
    {k : Fault → ExceptT Fault (StateM τ) β}
    (hxy : Agree F R x y) (hhk : ∀ e e', F e e' → Agree E R (h e) (k e')) :
    Agree E R (MonadExcept.tryCatch x h) (MonadExcept.tryCatch y k) := by
  intro s t
  have hresult := hxy s t
  rw [run_tryCatch, run_tryCatch]
  generalize x.run s = p at hresult
  generalize y.run t = q at hresult
  obtain ⟨a, s'⟩ := p
  obtain ⟨b, t'⟩ := q
  cases hresult with
  | error he => exact hhk _ _ he s' t'
  | ok hab => exact .ok hab

theorem mapM {f : γ → ExceptT Fault (StateM σ) α} {g : γ → ExceptT Fault (StateM τ) β}
    {items : List γ} (h : ∀ c ∈ items, Agree E R (f c) (g c)) :
    Agree E (fun as bs => as.length = items.length ∧ List.Forall₂ R as bs) (items.mapM f)
      (items.mapM g) := by
  induction items with
  | nil => exact agree_pure ⟨rfl, .nil⟩
  | cons c rest ih =>
    rw [mapM_cons, mapM_cons]
    refine (h c mem_cons_self).bind fun a b hab => ?_
    refine (ih fun c' hc' => h c' (mem_cons_of_mem _ hc')).bind fun as bs habs => ?_
    exact agree_pure ⟨congrArg (· + 1) habs.1, .cons hab habs.2⟩

end Agree

end Flowscript
