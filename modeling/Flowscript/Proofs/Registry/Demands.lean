import Flowscript.Proofs.Registry.Bindings
import Flowscript.Proofs.Registry.Choices

/-!
# The data types that a description demands

The types of inputs and outputs that are no choices and no basic types are data types. A description
that is read binds their names, and nothing else that has a name; and one that can be read in some
registry can be read in any other where the same enumerations are shared, unless a node stands under
one of these names.
-/

namespace Flowscript

/-- The name of the data type that a type of an input or output stands for. -/
def dataNames (isOutput : Bool) : Value → List String
  | .list _ | .tuple _ => []
  | type =>
    if type == .str "*" || (!isOutput && (Hinting.basicType? type).isSome) then []
    else (Identifier.nameOf type).toOption.toList

def inputNames (hidden : Bool) (info : Value) : List String :=
  (Hinting.groups hidden).flatMap fun group =>
    ((declaredIn info group).toOption.getD []).flatMap fun x => dataNames false x.type

def outputDataNames (info : Value) : List String :=
  ((Hinting.outputNames info).toOption.getD []).flatMap fun slot => dataNames true slot.1

namespace Registry

variable {hidden : Bool} {most : Int} {r r' s : Registry} {names names' : List String} {raw id : String}

/-! ## What reading does to names -/

def Bound (r : Registry) (raw : String) : Prop := ∃ id, r.Binds raw id

theorem bound_setVar_iff {t : TypeRef} {other : String} (ht : t.raw? = some raw)
    (hid : ∀ raw', r.Binds raw' id → raw' = raw) :
    (r.setVar id t).Bound other ↔ r.Bound other ∨ other = raw := by
  have hself : (r.setVar id t).Bound raw := ⟨id, t, Table.find?_put_self id t r.vars, ht⟩
  constructor
  · rintro ⟨id', u, hu, hraw⟩
    rw [find?_setVar] at hu
    by_cases heq : id = id'
    · rw [if_pos heq] at hu
      cases hu
      exact .inr (Option.some.inj (hraw.symm.trans ht))
    · rw [if_neg heq] at hu
      exact .inl ⟨id', u, hu, hraw⟩
  · rintro (⟨id', u, hu, hraw⟩ | rfl)
    · by_cases heq : id = id'
      · subst heq
        exact hid other ⟨u, hu, hraw⟩ ▸ hself
      · exact ⟨id', u, by rw [find?_setVar, if_neg heq, hu], hraw⟩
    · exact hself

theorem bound_claim_iff {other : String} (h : r.resolve raw = .inr id) :
    (r.setVar id (.claimed id raw)).Bound other ↔ r.Bound other ∨ other = raw := by
  refine bound_setVar_iff rfl fun raw' hbinds => ?_
  obtain ⟨-, -, -, hfree⟩ := of_resolve_inr h
  obtain ⟨t, ht, -⟩ := hbinds
  cases hfree.symm.trans ht

theorem not_bound_of_resolve (hr : r.Sound keptIds) (h : r.resolve raw = .inr id) : ¬ r.Bound raw := by
  rintro ⟨id', hbinds⟩
  obtain ⟨t, ht, -⟩ := hr.resolve_of_binds hbinds
  cases h.symm.trans ht

theorem bound_of_resolve {t : TypeRef} (h : r.resolve raw = .inl t) : r.Bound raw := by
  have hfound := r.resolve_cases raw
  rw [h] at hfound
  cases hfound with
  | bound _ hfind hraw => exact ⟨_, t, hfind, hraw⟩

def Classless (r : Registry) : Prop :=
  ∀ id raw className, Table.find? id r.vars = some (.node raw className) → className = none

/-- A registry of nodes that are no classes, with the given settings. -/
structure Ready (hidden : Bool) (most : Int) (r : Registry) : Prop where
  sound : r.Sound keptIds
  faithful : Faithful r.vars r.sharedValues
  classless : r.Classless
  hidden : r.hiddenInputs = hidden
  most : r.maxEnumValues = most

theorem Ready.of_grows (h : Ready hidden most r) (hgrows : r.Grows r')
    (hfaithful : Faithful r'.vars r'.sharedValues) (hhidden : r'.hiddenInputs = r.hiddenInputs)
    (hmost : r'.maxEnumValues = r.maxEnumValues) : Ready hidden most r' where
  sound := h.sound.of_evolves hgrows.evolves
  faithful := hfaithful
  classless id raw className hnode :=
    h.classless id raw className ((hgrows.bound h.sound id raw className).mp hnode)
  hidden := hhidden.trans h.hidden
  most := hmost.trans h.most

theorem Ready.of_reads (h : Ready hidden most r) (hreads : r.Reads r') : Ready hidden most r' := by
  refine h.of_grows hreads.grows (h.faithful.of_reads hreads) ?_ hreads.maxEnumValues
  induction hreads with
  | refl => rfl
  | tail _ hstep ih =>
    rw [← ih]
    cases hstep <;> rfl

theorem Ready.claim (h : Ready hidden most r) (hresolve : r.resolve raw = .inr id) :
    Ready hidden most (r.setVar id (.claimed id raw)) :=
  h.of_grows (.claim hresolve) (h.faithful.of_step (.claim hresolve : r.Step (fun _ => True) _)) rfl rfl

/-- Reading binds these names and no others, and no node stands under one of them. -/
structure Demands (names : List String) (r r' : Registry) : Prop where
  reads : r.Reads r'
  bound : ∀ raw, r'.Bound raw ↔ r.Bound raw ∨ raw ∈ names
  free : ∀ raw ∈ names, ∀ id, ¬ r.StandsFor id raw

theorem Demands.refl (r : Registry) : Demands [] r r :=
  ⟨.refl, fun _ => (or_iff_left List.not_mem_nil).symm, fun _ h => absurd h List.not_mem_nil⟩

theorem Demands.trans (hr : Ready hidden most r) (h : Demands names r s) (h' : Demands names' s r') :
    Demands (names ++ names') r r' := by
  refine ⟨h.reads.trans h'.reads, fun raw => ?_, fun raw hraw id hstands => ?_⟩
  · rw [h'.bound, h.bound, List.mem_append, or_assoc]
  · rcases List.mem_append.mp hraw with hraw | hraw
    · exact h.free raw hraw id hstands
    · exact h'.free raw hraw id ((h.reads.grows.standsFor_iff hr.sound id raw).mpr hstands)

theorem Demands.log (r : Registry) (log : String) : Demands [] r { r with log := log } :=
  ⟨.single (.log log), fun _ => (or_iff_left List.not_mem_nil).symm, fun _ h => absurd h List.not_mem_nil⟩

theorem Demands.known (hr : Ready hidden most r) {t : TypeRef} (h : r.resolve raw = .inl t)
    (ht : t.name? ≠ none) : Demands [raw] r r := by
  have hbound := bound_of_resolve h
  refine ⟨.refl, fun other => ?_, fun other hother id hstands => ?_⟩
  · rw [List.mem_singleton]
    exact ⟨.inl, fun h => h.elim (fun hold => hold) fun heq => heq ▸ hbound⟩
  · obtain rfl := List.mem_singleton.mp hother
    obtain ⟨t', ht', hfind, -⟩ := hr.sound.resolve_of_binds hstands.binds
    cases h.symm.trans ht'
    obtain ⟨className, hnode⟩ := hstands
    cases hfind.symm.trans hnode
    exact ht (hr.classless _ _ _ hnode)

theorem Demands.declare (hr : Ready hidden most r) (h : r.resolve raw = .inr id) :
    Demands [raw] r (Hinting.declared r raw id) := by
  refine ⟨.single (.declare h), fun other => ?_, fun other hother id' hstands => ?_⟩
  · have hbinds : (r.setVar id (.claimed id raw)).Binds raw id := ⟨_, Table.find?_put_self id _ r.vars, rfl⟩
    have hdeclared : ((r.setVar id (.claimed id raw)).setVar id (.data id raw)).Bound other ↔
        (r.setVar id (.claimed id raw)).Bound other ∨ other = raw :=
      bound_setVar_iff rfl fun _ h => h.unique hbinds
    rw [List.mem_singleton]
    exact hdeclared.trans (by rw [bound_claim_iff h, or_assoc, or_self])
  · obtain rfl := List.mem_singleton.mp hother
    exact not_bound_of_resolve hr.sound h ⟨id', hstands.binds⟩

theorem Demands.share (hr : Ready hidden most r) (hstep : r.ReadStep r') {e : Enumeration}
    (hvars : r'.vars = (r.setVar id (.enumeration e)).vars) : Demands [] r r' := by
  have hreads : r.Reads r' := .single hstep
  refine ⟨hreads, fun raw => ?_, fun _ h => absurd h List.not_mem_nil⟩
  rw [or_iff_left List.not_mem_nil]
  constructor
  · rintro ⟨id', t, ht, hraw⟩
    rw [hvars, find?_setVar] at ht
    by_cases hid : id = id'
    · rw [if_pos hid] at ht
      cases ht
      cases hraw
    · rw [if_neg hid] at ht
      exact ⟨id', t, ht, hraw⟩
  · rintro ⟨id', hbinds⟩
    exact ⟨id', hbinds.of_evolves hr.sound hreads.evolves⟩

def Shares (r s : Registry) : Prop :=
  ∀ id old, Table.find? id r.sharedValues = some old → Table.find? id s.sharedValues = some old

theorem Ready.enumeration_of_find? (hr : Ready hidden most r) {values old : Value}
    (h : r.sharedValues.find? (fun entry => entry.2 == values) = some (id, old)) :
    ∃ e, Table.find? id r.vars = some (.enumeration e) := by
  obtain ⟨e, -, he, -⟩ := hr.faithful.made id old
    (Table.find?_of_mem hr.faithful.nodup (List.mem_of_find?_eq_some h))
  exact ⟨e, he⟩

end Registry

/-! ## Reading the same description twice -/

namespace Hinting

open Registry

variable {α β : Type} {hidden : Bool} {most : Int} {names names' : List String} {info : Value}
  {classId classId' : String} {modules modules' : Modules}

/-- If the one step succeeds, it demands the names, and the other step succeeds likewise in a registry
that shares as much and has no node under one of these names. -/
def Carries (hidden : Bool) (most : Int) (names : List String) (Q : α → α → Prop) (x y : Hinting α) : Prop :=
  ∀ ⦃f r a f' r'⦄, Ready hidden most r → (x.run f).run r = (.ok (a, f'), r') →
    Q a a ∧ Demands names r r' ∧ ∀ g s, Ready hidden most s → r.Shares s →
      (∀ raw ∈ names, ∀ id, ¬ s.StandsFor id raw) →
      ∃ b g' s', (y.run g).run s = (.ok (b, g'), s') ∧ Demands names s s' ∧ r'.Shares s' ∧ Q a b

variable {Q : α → α → Prop} {Q' : β → β → Prop} {x y : Hinting α}

theorem Carries.bind {g g' : α → Hinting β} (hx : Carries hidden most names Q x y)
    (hg : ∀ a b, Q a b → Carries hidden most names' Q' (g a) (g' b)) :
    Carries hidden most (names ++ names') Q' (x >>= g) (y >>= g') := by
  intro f r c f' r' hr h
  obtain ⟨a, f₁, r₁, hfirst, hrest⟩ := of_run_bind h
  obtain ⟨ha, hdemands, hfollows⟩ := hx hr hfirst
  have hr₁ := hr.of_reads hdemands.reads
  obtain ⟨hc, hdemands', -⟩ := hg a a ha hr₁ hrest
  refine ⟨hc, hdemands.trans hr hdemands', fun f s hs hshares hfree => ?_⟩
  obtain ⟨b, f₂, s₁, hrun, hs₁, hshares₁, hab⟩ := hfollows f s hs hshares fun raw hraw =>
    hfree raw (List.mem_append_left _ hraw)
  obtain ⟨-, -, hfollows'⟩ := hg a b hab hr₁ hrest
  obtain ⟨d, f₃, s₂, hrun', hs₂, hshares₂, hcd⟩ := hfollows' f₂ s₁ (hs.of_reads hs₁.reads) hshares₁
    fun raw hraw id hstands => hfree raw (List.mem_append_right _ hraw) id
      ((hs₁.reads.grows.standsFor_iff hs.sound id raw).mp hstands)
  exact ⟨d, f₃, s₂, (run_bind_ok hrun).trans hrun', hs₁.trans hs hs₂, hshares₂, hcd⟩

theorem Carries.bind_nil {g g' : α → Hinting β} (hx : Carries hidden most names Q x y)
    (hg : ∀ a b, Q a b → Carries hidden most [] Q' (g a) (g' b)) :
    Carries hidden most names Q' (x >>= g) (y >>= g') :=
  List.append_nil names ▸ hx.bind hg

theorem carries_check {result result' : Except Fault α}
    (h : ∀ a, result = .ok a → Q a a ∧ ∃ b, result' = .ok b ∧ Q a b) :
    Carries hidden most [] Q (check result) (check result') := by
  intro f r a f' r' _ hrun
  obtain ⟨ha, rfl, rfl⟩ := of_run_check hrun
  obtain ⟨haa, b, rfl, hab⟩ := h a ha
  exact ⟨haa, .refl _, fun g s _ hshares _ => ⟨b, g, s, rfl, .refl _, hshares, hab⟩⟩

theorem Noting.carries (hx : Noting x) : Carries hidden most [] Eq x x := by
  intro f r a f' r' hr h
  obtain ⟨result, line, hrun⟩ := hx most
  rw [hrun f r hr.most] at h
  cases result with
  | error e => cases h
  | ok b =>
    cases h
    exact ⟨rfl, .log _ _, fun g s hs hshares _ => ⟨_, g, _, hrun g s hs.most, .log _ _, hshares, rfl⟩⟩

theorem carries_pure {a b : α} (ha : Q a a) (hab : Q a b) :
    Carries hidden most [] Q (pure a) (pure b) := by
  have hcheck : Carries hidden most [] Q (check (.ok a)) (check (.ok b)) := by
    refine carries_check fun _ h => ?_
    cases h
    exact ⟨ha, b, rfl, hab⟩
  exact hcheck

theorem Carries.check_bind {result : Except Fault β} {g g' : β → Hinting α}
    (hg : ∀ b, result = .ok b → Carries hidden most names Q (g b) (g' b)) :
    Carries hidden most names Q (check result >>= g) (check result >>= g') := by
  have hcheck : Carries hidden most [] (fun a b => result = .ok a ∧ a = b) (check result) (check result) :=
    carries_check fun a ha => ⟨⟨ha, rfl⟩, a, ha, ha, rfl⟩
  refine hcheck.bind fun a b hab => ?_
  obtain ⟨ha, rfl⟩ := hab
  exact hg a ha

def Still (x : Hinting α) : Prop := ∀ f r, ∃ a f', (x.run f).run r = (.ok (a, f'), r)

theorem Still.carries (hy : Still y)
    (hx : ∀ {f r a f' r'}, (x.run f).run r = (.ok (a, f'), r') → ∃ log, r' = { r with log := log }) :
    Carries hidden most [] (fun _ _ => True) x y := by
  intro f r a f' r' _ h
  obtain ⟨log, rfl⟩ := hx h
  refine ⟨trivial, .log _ log, fun g s _ hshares _ => ?_⟩
  obtain ⟨b, g', hrun⟩ := hy g s
  exact ⟨b, g', s, hrun, .refl s, hshares, trivial⟩

theorem Still.quiet (hx : Still x) {f f' : Findings} {r r' : Registry} {a : α}
    (h : (x.run f).run r = (.ok (a, f'), r')) : ∃ log, r' = { r with log := log } := by
  obtain ⟨_, _, hrun⟩ := hx f r
  cases hrun.symm.trans h
  exact ⟨_, rfl⟩

theorem still_attach (id : String) (e : Enumeration) (stub : String) (a : α) :
    Still (do attach id e stub; return a) := fun f _ => ⟨a, f.attach id e stub, rfl⟩

theorem Carries.registry_bind {g g' : Registry → Hinting α}
    (hg : ∀ r s, Ready hidden most r → Ready hidden most s → r.Shares s →
      Carries hidden most names Q (g r) (g' s)) :
    Carries hidden most names Q (registry >>= g) (registry >>= g') := by
  intro f r a f' r' hr h
  obtain ⟨ha, hdemands, -⟩ := hg r r hr hr (fun _ _ hold => hold) hr (of_run_registry_bind h)
  refine ⟨ha, hdemands, fun f s hs hshares hfree => ?_⟩
  obtain ⟨-, -, hfollows⟩ := hg r s hr hs hshares hr (of_run_registry_bind h)
  exact hfollows f s hs hshares hfree

theorem carries_foldlM {g g' : α → β → Hinting α} {demanded : β → List String} (items : List β)
    (hQ : ∀ a b, Q a b → Q a a)
    (hg : ∀ a b item, Q a b → Carries hidden most (demanded item) Q (g a item) (g' b item))
    {a b : α} (hab : Q a b) :
    Carries hidden most (items.flatMap demanded) Q (items.foldlM g a) (items.foldlM g' b) := by
  induction items generalizing a b with
  | nil => exact carries_pure (hQ a b hab) hab
  | cons item rest ih =>
    rw [List.foldlM_cons, List.foldlM_cons, List.flatMap_cons]
    exact (hg a b item hab).bind fun _ _ => ih

theorem carries_mapM {g g' : β → Hinting α} {demanded : β → List String} (items : List β)
    (hg : ∀ item, Carries hidden most (demanded item) (fun _ _ => True) (g item) (g' item)) :
    Carries hidden most (items.flatMap demanded) (fun _ _ => True) (items.mapM g) (items.mapM g') := by
  induction items with
  | nil => exact carries_pure trivial trivial
  | cons item rest ih =>
    rw [List.mapM_cons, List.mapM_cons, List.flatMap_cons]
    exact (hg item).bind fun _ _ _ => ih.bind_nil fun _ _ _ => carries_pure trivial trivial

/-! ## Choices -/

theorem carries_shared? (name : String) (values : Value) :
    Carries hidden most [] (fun a b => a.isSome → b.isSome) (shared? ⟨info, classId, modules⟩ name values)
      (shared? ⟨info, classId', modules'⟩ name values) := by
  unfold shared?
  refine .check_bind fun nodeName _ => ?_
  split
  · next id hid =>
    refine .check_bind fun p hp => ?_
    obtain ⟨stub, e⟩ := p
    obtain ⟨n, -, hid⟩ := Option.bind_eq_some_iff.mp hid
    obtain ⟨vs, hvs, hp⟩ := ok_of_bind hp
    obtain ⟨items, hitems, he⟩ := ok_of_bind hp
    have hstep (r : Registry) := ReadStep.share (r := r) (mem_of_sharedId? hid)
      (by rw [hvs, ok_bind, hitems]) he
    intro f r a f' r' hr h
    cases h
    refine ⟨fun hsome => hsome, .share hr (hstep _) rfl, fun g s hs hshares _ =>
      ⟨_, g, _, rfl, .share hs (hstep _) rfl, fun other old hold => ?_, fun hsome => hsome⟩⟩
    rw [Table.find?_put] at hold ⊢
    by_cases hother : id = other
    · rw [if_pos hother] at hold ⊢
      exact hold
    · rw [if_neg hother] at hold ⊢
      exact hshares other old hold
  · refine .registry_bind fun r s hr hs hshares => .check_bind fun n _ => ?_
    split
    · exact carries_pure (fun hsome => hsome) fun hsome => hsome
    generalize hfind : r.sharedValues.find? _ = found
    generalize hfind' : s.sharedValues.find? _ = found'
    cases found' with
    | none =>
      cases found with
      | none => exact carries_pure (fun hsome => hsome) fun hsome => hsome
      | some entry =>
        have hshared := hshares _ _ (Table.find?_of_mem hr.faithful.nodup (List.mem_of_find?_eq_some hfind))
        exact absurd (List.find?_some hfind) (List.find?_eq_none.mp hfind' _ (Table.mem_of_find? hshared))
    | some entry' =>
      obtain ⟨e', he'⟩ := hs.enumeration_of_find? hfind'
      dsimp only
      rw [he']
      cases found with
      | none => exact carries_pure (fun hsome => hsome) fun _ => rfl
      | some entry =>
        obtain ⟨e, he⟩ := hr.enumeration_of_find? hfind
        dsimp only
        rw [he]
        exact carries_pure (fun hsome => hsome) fun _ => rfl

theorem carries_choiceHint (name id : String) (choice : Value) :
    Carries hidden most [] (fun _ _ => True) (choiceHint ⟨info, classId, modules⟩ name id choice)
      (choiceHint ⟨info, classId', modules'⟩ name id choice) := by
  refine .check_bind fun values _ => (carries_shared? name choice).bind fun found found' hfound => ?_
  cases found with
  | some p =>
    obtain ⟨q, rfl⟩ := Option.isSome_iff_exists.mp (hfound rfl)
    exact (still_attach _ _ _ _).carries (still_attach _ _ _ _).quiet
  | none =>
    cases found' with
    | some q =>
      -- the other registry has an enumeration to share
      refine (still_attach _ _ _ _).carries fun h => ?_
      obtain ⟨nodeName, -, h⟩ := of_run_check_bind h
      split at h
      · obtain ⟨p, -, h⟩ := of_run_check_bind h
        exact (still_attach _ _ _ _).quiet h
      · obtain ⟨kept, f₁, r₁, hlimit, h⟩ := of_run_bind h
        obtain ⟨p, f₂, r₂, hmade, h⟩ := of_run_bind h
        obtain ⟨rfl, log, rfl⟩ := (noting_limit _ _).of_run hlimit
        obtain ⟨rfl, log', rfl⟩ := (noting_enumerationOf _ _ _ _).of_run hmade
        obtain ⟨log'', rfl⟩ := (still_attach _ _ _ _).quiet h
        exact ⟨log'', rfl⟩
    | none =>
      refine .check_bind fun nodeName _ => ?_
      dsimp only
      split
      · exact .check_bind fun p _ => (still_attach _ _ _ _).carries (still_attach _ _ _ _).quiet
      · refine (noting_limit _ _).carries.bind fun kept kept' hkept => ?_
        subst hkept
        exact (noting_enumerationOf _ _ _ _).carries.bind fun p p' _ =>
          (still_attach _ _ _ _).carries (still_attach _ _ _ _).quiet

/-! ## Types -/

theorem run_dataHint_plain {scope : Scope} {r : Registry} (hr : r.imports = none) (name : String)
    {type : Value} {raw : String} (hraw : Identifier.nameOf type = .ok raw) (f : Findings) :
    ((dataHint scope name type).run f).run r = match r.resolve raw with
      | .inl t => (match t.name? with
        | some text => .ok ((t, text), f)
        | none => .error .missingField, r)
      | .inr id => (.ok ((.data id raw, id), f), declared r raw id) := by
  have hdata := run_dataType hraw f r
  rw [run_dataHint, hr, if_neg (by simp)]
  cases hresolve : r.resolve raw with
  | inl t =>
    rw [hresolve] at hdata
    refine (run_bind_ok hdata).trans ?_
    dsimp only
    cases t.name? <;> rfl
  | inr id =>
    rw [hresolve] at hdata
    exact run_bind_ok hdata

theorem carries_dataHint (name : String) (type : Value) :
    Carries hidden most (Identifier.nameOf type).toOption.toList (fun _ _ => True)
      (dataHint ⟨info, classId, modules⟩ name type) (dataHint ⟨info, classId', modules'⟩ name type) := by
  cases hraw : Identifier.nameOf type with
  | error e =>
    have hfails {scope : Scope} {f r} (hr : Ready hidden most r) :
        ((dataHint scope name type).run f).run r = (.error e, r) := by
      rw [run_dataHint, hr.sound.imports, if_neg (by simp)]
      unfold dataType
      rw [hraw]
      rfl
    intro f r a f' r' hr h
    cases (hfails hr).symm.trans h
  | ok raw =>
    have hdemands {scope : Scope} {f r p f' r'} (hr : Ready hidden most r)
        (h : ((dataHint scope name type).run f).run r = (.ok (p, f'), r')) :
        Demands [raw] r r' ∧ r'.sharedValues = r.sharedValues := by
      rw [run_dataHint_plain hr.sound.imports name hraw] at h
      cases hresolve : r.resolve raw with
      | inl t =>
        rw [hresolve] at h
        dsimp only at h
        cases ht : t.name? with
        | none =>
          rw [ht] at h
          cases h
        | some text =>
          rw [ht] at h
          cases h
          exact ⟨.known hr hresolve (by rw [ht]; exact Option.some_ne_none text), rfl⟩
      | inr id =>
        rw [hresolve] at h
        cases h
        exact ⟨.declare hr hresolve, rfl⟩
    intro f r a f' r' hr h
    refine ⟨trivial, (hdemands hr h).1, fun g s hs hshares hfree => ?_⟩
    obtain ⟨p, s', hrun⟩ : ∃ p s', ((dataHint ⟨info, classId', modules'⟩ name type).run g).run s =
        (.ok (p, g), s') := by
      rw [run_dataHint_plain hs.sound.imports name hraw]
      cases hresolve : s.resolve raw with
      | inl t =>
        have hfound := s.resolve_cases raw
        rw [hresolve] at hfound
        cases hfound with
        | bound _ hfind hname =>
          cases t with
          | claimed id _ | data id _ => exact ⟨_, _, rfl⟩
          | node _ _ =>
            -- a node may have no class to name, but the name is not that of a node
            cases hname
            exact absurd ⟨_, hfind⟩ (hfree raw (.head _) _)
          | nothing | basic _ | anyOutput | enumeration _ | module _ => cases hname
      | inr id => exact ⟨_, _, rfl⟩
    obtain ⟨hdemanded, hsame⟩ := hdemands hs hrun
    refine ⟨p, g, s', hrun, hdemanded, fun id old hold => ?_, trivial⟩
    rw [hsame]
    exact hshares id old ((hdemands hr h).2 ▸ hold)

theorem carries_typeHint (isOutput : Bool) (name id : String) (type : Value) :
    Carries hidden most (dataNames isOutput type) (fun _ _ => True)
      (typeHint ⟨info, classId, modules⟩ isOutput name id type)
      (typeHint ⟨info, classId', modules'⟩ isOutput name id type) := by
  unfold typeHint dataNames
  split
  · refine .check_bind fun yesNo _ => ?_
    split
    · exact .check_bind fun _ _ => carries_pure trivial trivial
    · exact (carries_choiceHint _ _ _).bind fun _ _ _ => carries_pure trivial trivial
  · refine .check_bind fun yesNo _ => ?_
    split
    · exact .check_bind fun _ _ => carries_pure trivial trivial
    · exact (carries_choiceHint _ _ _).bind fun _ _ _ => carries_pure trivial trivial
  · by_cases hany : (type == .str "*") = true
    · simp only [hany, Bool.true_or, if_true]
      exact carries_pure trivial trivial
    · simp only [hany, Bool.false_or, if_false, Bool.false_eq_true]
      cases isOutput with
      | true => exact (carries_dataHint _ _).bind_nil fun _ _ _ => carries_pure trivial trivial
      | false =>
        cases hbasic : basicType? type with
        | none => exact (carries_dataHint _ _).bind_nil fun _ _ _ => carries_pure trivial trivial
        | some basic => exact carries_pure trivial trivial

theorem carries_output (name type : Value) :
    Carries hidden most (dataNames true type) (fun _ _ => True) (output ⟨info, classId, modules⟩ name type)
      (output ⟨info, classId', modules'⟩ name type) :=
  .check_bind fun _ _ => (carries_typeHint _ _ _ _).bind_nil fun _ _ _ => carries_pure trivial trivial

theorem carries_input (name : String) (isOptional : Bool) (configured configured' type : Value) :
    Carries hidden most (dataNames false type) (fun _ _ => True)
      (input ⟨info, classId, modules⟩ name isOptional configured type)
      (input ⟨info, classId', modules'⟩ name isOptional configured' type) := by
  refine (carries_typeHint _ _ _ _).bind_nil fun p p' _ => ?_
  refine Still.carries (fun f r => ?_) fun h => ?_
  · dsimp only
    split
    · exact ⟨_, _, rfl⟩
    · exact ⟨_, _, rfl⟩
  · dsimp only at h
    split at h
    · cases h
      exact ⟨_, rfl⟩
    · cases h
      exact ⟨_, rfl⟩

/-! ## Whole descriptions -/

theorem carries_addInput (isOptional : Bool) {inputs inputs' : Inputs} (h : inputs.configs = inputs'.configs)
    (x : DeclaredInput) :
    Carries hidden most (dataNames false x.type) (fun i j => i.configs = j.configs)
      (addInput ⟨info, classId, modules⟩ isOptional inputs x.name x.declared)
      (addInput ⟨info, classId', modules'⟩ isOptional inputs' x.name x.declared) := by
  unfold addInput
  rw [← h]
  have hread : Carries hidden most [] (fun p q => p = q ∧ x.type = p.1)
      (readInput ⟨info, classId, modules⟩ (Identifier.raw x.name) x.declared inputs.configs)
      (readInput ⟨info, classId', modules'⟩ (Identifier.raw x.name) x.declared inputs.configs) := by
    intro f r p f' r' hr hrun
    obtain ⟨-, hdemands, hfollows⟩ := (noting_readInput _ _ _).carries hr hrun
    have htype : x.type = p.1 := by
      rw [DeclaredInput.type, of_run_readInput hrun]
      rfl
    refine ⟨⟨rfl, htype⟩, hdemands, fun g s hs hshares hfree => ?_⟩
    obtain ⟨q, g', s', hrun', hdemands', hshares', hpq⟩ := hfollows g s hs hshares hfree
    exact ⟨q, g', s', hrun', hdemands', hshares', hpq, htype⟩
  refine hread.bind fun p q hpq => ?_
  obtain ⟨rfl, htype⟩ := hpq
  rw [htype]
  exact (carries_input _ _ _ _ _).bind_nil fun _ _ _ => carries_pure rfl rfl

theorem carries_readInputs :
    Carries hidden most (inputNames hidden info) (fun i j => i.configs = j.configs)
      (readInputs ⟨info, classId, modules⟩)
      (readInputs ⟨info, classId', modules'⟩) := by
  refine .registry_bind fun r s hr hs _ => ?_
  rw [hr.hidden, hs.hidden]
  refine carries_foldlM (Q := fun (i j : Inputs) => i.configs = j.configs) _ (fun _ _ _ => rfl)
    (fun inputs inputs' group hinputs => ?_) rfl
  obtain ⟨group, isOptional⟩ := group
  refine .check_bind fun g hg => ?_
  cases g with
  | none =>
    have hdeclared : declaredIn info (group, isOptional) = .ok [] := by rw [declaredIn, hg]; rfl
    rw [hdeclared]
    exact carries_pure rfl hinputs
  | some g =>
    refine .check_bind fun entries hentries => ?_
    have hdeclared : declaredIn info (group, isOptional) =
        .ok (entries.map fun entry => ⟨entry.1, entry.2, isOptional⟩) := by
      rw [declaredIn, hg, ok_bind]
      dsimp only
      rw [hentries]
      rfl
    rw [hdeclared, Except.toOption, Option.getD_some, List.flatMap_map]
    refine carries_foldlM (Q := fun (i j : Inputs) => i.configs = j.configs) _ (fun _ _ _ => rfl)
      (fun inputs inputs' entry hinputs => ?_) hinputs
    exact carries_addInput isOptional hinputs ⟨entry.1, entry.2, isOptional⟩

theorem carries_readOutputs :
    Carries hidden most (outputDataNames info ++ outputDataNames info) (fun _ _ => True)
      (readOutputs ⟨info, classId, modules⟩) (readOutputs ⟨info, classId', modules'⟩) := by
  refine .check_bind fun outputs houtputs => ?_
  have hnames : outputDataNames info = outputs.flatMap fun slot => dataNames true slot.1 := by
    rw [outputDataNames, houtputs]
    rfl
  rw [hnames]
  refine (carries_mapM outputs fun slot => ?_).bind fun _ _ _ => (carries_mapM outputs fun slot => ?_).bind_nil
    fun _ _ _ => carries_pure trivial trivial
  · exact (carries_output _ _).bind_nil fun _ _ _ => carries_pure trivial trivial
  · exact (carries_output _ _).bind_nil fun _ _ _ => carries_pure trivial trivial

theorem carries_readNode :
    Carries hidden most (inputNames hidden info ++ (outputDataNames info ++ outputDataNames info))
      (fun _ _ => True) (readNode ⟨info, classId, modules⟩) (readNode ⟨info, classId', modules'⟩) := by
  refine carries_readInputs.bind fun inputs inputs' _ => carries_readOutputs.bind_nil fun p p' _ => ?_
  have hdoc : Carries hidden most [] (fun _ _ => True)
      (check (documentation info classId inputs.parameters p.2 inputs.configs))
      (check (documentation info classId' inputs'.parameters p'.2 inputs'.configs)) := by
    refine carries_check fun doc h => ⟨trivial, ?_⟩
    obtain ⟨displayName, hdisplay, h⟩ := ok_of_bind h
    obtain ⟨description, hdescription, h⟩ := ok_of_bind h
    obtain ⟨module, hmodule, h⟩ := ok_of_bind h
    obtain ⟨category, hcategory, h⟩ := ok_of_bind h
    obtain ⟨output, houtput, h⟩ := ok_of_bind h
    simp only [documentation, hdisplay, hdescription, hmodule, hcategory, houtput, ok_bind]
    exact ⟨_, rfl, trivial⟩
  refine hdoc.bind fun _ _ _ => Still.carries (fun f r => ⟨_, _, rfl⟩) fun h => ?_
  cases h
  exact ⟨_, rfl⟩

end Hinting

end Flowscript
