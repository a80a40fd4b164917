import Flowscript.Registry.AddNode
import Flowscript.Proofs.Registry.Names
import Flowscript.Proofs.Runs

/-!
# Stages of the registry

Every step of the registration of a node, whether it succeeds or fails, is a sequence of changes of
the bindings. So what changes keep holds at every stage of a registry that nodes are added to.
-/

namespace Flowscript

open List

/-! ## What steps do to the bindings -/

theorem Registry.find?_node_setVar {r : Registry} {id : String} {t : TypeRef}
    (ht : ∀ raw className, t ≠ .node raw className)
    (hold : ∀ raw className, Table.find? id r.vars ≠ some (.node raw className))
    (other raw : String) (className : Option String) :
    Table.find? other (r.setVar id t).vars = some (.node raw className) ↔
      Table.find? other r.vars = some (.node raw className) := by
  rw [find?_setVar]
  by_cases hid : id = other
  · subst hid
    rw [if_pos rfl]
    exact ⟨fun h => absurd (Option.some.inj h) (ht raw className), fun h => absurd h (hold raw className)⟩
  · rw [if_neg hid]

/-- A registry that came of another by changes, with the same nodes under the same identifiers. -/
structure Registry.Grows (r r' : Registry) : Prop where
  evolves : r.Evolves r'
  nodes : r'.nodes = r.nodes
  bound : ∀ {held : List String}, r.Sound held → ∀ (id raw : String) (className : Option String),
    Table.find? id r'.vars = some (.node raw className) ↔
      Table.find? id r.vars = some (.node raw className)

namespace Registry.Grows

variable {r r' r'' : Registry}

theorem refl (r : Registry) : r.Grows r := ⟨.refl, rfl, fun _ _ _ _ => .rfl⟩

theorem trans (h : r.Grows r') (h' : r'.Grows r'') : r.Grows r'' :=
  ⟨h.evolves.trans h'.evolves, h'.nodes.trans h.nodes, fun hr id raw className =>
    (h'.bound (hr.of_evolves h.evolves) id raw className).trans (h.bound hr id raw className)⟩

theorem aside (hvars : r'.vars = r.vars) (himports : r'.imports = r.imports)
    (hnodes : r'.nodes = r.nodes) : r.Grows r' :=
  ⟨.single (.aside hvars himports), hnodes, fun _ _ _ _ => by rw [hvars]⟩

theorem claim {raw id : String} (h : r.resolve raw = .inr id) :
    r.Grows (r.setVar id (.claimed id raw)) := by
  refine ⟨.single (.claim h), rfl, fun _ => find?_node_setVar (fun _ _ => nofun) fun _ _ hnode => ?_⟩
  obtain ⟨-, -, -, hfree⟩ := of_resolve_inr h
  rw [hfree] at hnode
  cases hnode

theorem share {id : String} (h : id ∈ sharedInputs.map fun entry => entry.2.2) (e : Enumeration) :
    r.Grows (r.setVar id (.enumeration e)) := by
  refine ⟨.single (.share h), rfl, fun hr => find?_node_setVar (fun _ _ => nofun) fun _ _ hnode => ?_⟩
  obtain ⟨entry, hentry, rfl⟩ := mem_map.mp h
  exact hr.not_mem_kept ⟨_, hnode, rfl⟩ (hr.shared entry hentry)

end Registry.Grows

/-- The registry with a data type declared. -/
def Hinting.declared (r : Registry) (raw id : String) : Registry :=
  { (r.setVar id (.claimed id raw)).setVar id (.data id raw) with
    dataStubs := Table.put id ("class " ++ id ++ ": ...") r.dataStubs }

namespace Registry

/-- A change that reading a description makes. -/
inductive ReadStep (r : Registry) : Registry → Prop where
  | log (log : String) : ReadStep r { r with log := log }
  | declare {raw id : String} (h : r.resolve raw = .inr id) : ReadStep r (Hinting.declared r raw id)
  | share {id stub : String} {values : Value} {items : List (String × Value)} {e : Enumeration}
      (hid : id ∈ sharedInputs.map fun entry => entry.2.2)
      (hitems : (do Hinting.keyByName (← values.iterate)) = .ok items)
      (he : Enumeration.ofTexts id "" items = .ok (stub, e)) :
    ReadStep r { r.setVar id (.enumeration e) with
      sharedStubs := Table.put id stub r.sharedStubs
      sharedValues := Table.put id values r.sharedValues }

/-- A sequence of changes that reading makes. -/
def Reads : Registry → Registry → Prop := Relation.ReflTransGen ReadStep

variable {r r' : Registry}

theorem ReadStep.grows (h : r.ReadStep r') : r.Grows r' := by
  cases h with
  | log log => exact .aside rfl rfl rfl
  | @declare raw id h =>
    have hbinds : (r.setVar id (.claimed id raw)).Binds raw id :=
      ⟨_, Table.find?_put_self id _ r.vars, rfl⟩
    have hclaimed : r.Grows (r.setVar id (.claimed id raw)) := .claim h
    have hdeclared : (r.setVar id (.claimed id raw)).Grows (Hinting.declared r raw id) := by
      have hbound : (r.setVar id (.claimed id raw)).Evolves
          ((r.setVar id (.claimed id raw)).setVar id (.data id raw)) := .single (.bind hbinds rfl)
      refine ⟨hbound.tail (.aside rfl rfl), rfl, fun _ => ?_⟩
      refine find?_node_setVar (fun _ _ => nofun) fun _ _ hnode => ?_
      rw [find?_setVar, if_pos rfl] at hnode
      cases hnode
    exact hclaimed.trans hdeclared
  | share hid _ _ =>
    -- the declaration is kept beside the enumeration
    exact (Grows.share hid _).trans (.aside rfl rfl rfl)

theorem Reads.grows (h : r.Reads r') : r.Grows r' := by
  induction h with
  | refl => exact .refl r
  | tail _ hstep ih => exact ih.trans hstep.grows

theorem Reads.evolves (h : r.Reads r') : r.Evolves r' := h.grows.evolves

theorem Reads.find?_eq {held : List String} {id raw : String} {t : TypeRef} (hr : r.Sound held)
    (h : r.Reads r') (ht : Table.find? id r.vars = some t) (hraw : t.raw? = some raw) :
    Table.find? id r'.vars = some t := by
  induction h with
  | refl => exact ht
  | tail hreads hstep ih =>
    have hsound := hr.of_evolves (Reads.evolves hreads)
    cases hstep with
    | log _ => exact ih
    | declare hresolve =>
      obtain ⟨-, -, -, hfree⟩ := of_resolve_inr hresolve
      unfold Hinting.declared
      rw [find?_setVar, find?_setVar, if_neg, if_neg]
      · exact ih
      all_goals
        rintro rfl
        rw [hfree] at ih
        cases ih
    | share hid _ _ =>
      obtain ⟨entry, hentry, rfl⟩ := mem_map.mp hid
      rw [find?_setVar, if_neg]
      · exact ih
      · rintro rfl
        exact hsound.not_mem_kept ⟨t, ih, hraw⟩ (hsound.shared entry hentry)

/-- Every change that reading makes is in the relation, and so is looking up a dotted name. -/
structure Admits (R : Registry → Registry → Prop) : Prop where
  refl (r : Registry) : R r r
  trans {r r' r'' : Registry} : R r r' → R r' r'' → R r r''
  read {r r' : Registry} : r.ReadStep r' → R r r'
  lookUp {r : Registry} (h : r.imports ≠ none) (package : String) (f : List String → List String) :
    R r (r.setVar package (.module package)) ∧ R r { r with imports := r.imports.map f }

theorem admits_reads : Admits fun r r' => r.imports = none → r.Reads r' where
  refl _ _ := .refl
  trans h h' hr := (h hr).trans (h' ((h hr).evolves.imports.trans hr))
  read h _ := .single h
  lookUp h _ _ := ⟨fun hr => absurd hr h, fun hr => absurd hr h⟩

end Registry

variable {R : Registry → Registry → Prop} (hR : Registry.Admits R)

namespace Registering

variable {α β : Type}

theorem run_check (result : Except Fault α) (r : Registry) : (check result).run r = (result, r) := rfl

theorem run_claim (raw : String) (r : Registry) :
    (claim raw).run r = match r.resolve raw with
      | .inl t => (.ok (.inl t), r)
      | .inr id => (.ok (.inr id), r.setVar id (.claimed id raw)) := by
  unfold claim
  rw [run_bind_ok (run_get r)]
  cases r.resolve raw <;> rfl

theorem run_bind_of_binds {r : Registry} {raw id : String} (h : r.Binds raw id) (t : TypeRef) :
    (Registering.bind raw id t).run r = (.ok (), r.setVar id t) := by
  obtain ⟨old, hold, hraw⟩ := h
  unfold Registering.bind
  rw [run_bind_ok (run_get r)]
  simp only [hold, hraw, bne_self_eq_false, Bool.false_eq_true, if_false]
  rfl

theorem run_bind_cases (raw id : String) (t : TypeRef) (r : Registry) :
    (Registering.bind raw id t).run r = (.ok (), r.setVar id t) ∨
      ¬ r.Binds raw id ∧ ∃ e, (Registering.bind raw id t).run r = (.error e, r) := by
  by_cases hbinds : r.Binds raw id
  · exact .inl (run_bind_of_binds hbinds t)
  · unfold Registering.bind
    rw [run_bind_ok (run_get r)]
    split
    · exact .inl rfl
    · split
      · exact .inr ⟨hbinds, _, rfl⟩
      · split
        · exact .inr ⟨hbinds, _, rfl⟩
        · exact .inl rfl

end Registering

/-- There is one default for an input, and none is nothing. -/
structure Findings.Tidy (f : Findings) : Prop where
  nodup : (f.defaults.map Prod.fst).Nodup
  given : ∀ entry ∈ f.defaults, entry.2 ≠ .null

theorem Findings.Tidy.put {f : Findings} (hf : f.Tidy) (id : String) {v : Value} (hv : v ≠ .null) :
    { f with defaults := Value.put id v f.defaults : Findings }.Tidy := by
  refine ⟨Value.nodup_keys_put id v hf.nodup, fun entry hentry => ?_⟩
  rw [Value.put_eq_tablePut] at hentry
  rcases Table.mem_put hentry with hold | hnew
  · exact hf.given entry hold
  · exact hnew ▸ hv

namespace Hinting

variable {α β : Type} {scope : Scope}

/-- A step that only notes: what it gives and notes depends on no more of the registry than its
settings. -/
def Noting (x : Hinting α) : Prop :=
  ∀ most, ∃ result line, ∀ f r, r.maxEnumValues = most →
    (x.run f).run r = (Except.map (fun a => (a, f)) result, { r with log := r.log ++ line })

theorem noting_check (result : Except Fault α) : Noting (check result) := by
  refine fun _ => ⟨result, "", fun f r _ => ?_⟩
  rw [String.append_empty]
  cases result <;> rfl

theorem noting_pure (a : α) : Noting (pure a) := noting_check (.ok a)

theorem noting_note (line : String) : Noting (note line) := by
  refine fun _ => ⟨.ok (), line ++ "\n", fun f r _ => ?_⟩
  rw [← String.append_assoc]
  rfl

theorem Noting.bind {x : Hinting α} {g : α → Hinting β} (hx : Noting x) (hg : ∀ a, Noting (g a)) :
    Noting (x >>= g) := by
  intro most
  obtain ⟨result, line, hrun⟩ := hx most
  cases result with
  | error e => exact ⟨.error e, line, fun f r hr => run_bind_error (hrun f r hr)⟩
  | ok a =>
    obtain ⟨result, line', hrun'⟩ := hg a most
    refine ⟨result, line ++ line', fun f r hr => (run_bind_ok (hrun f r hr)).trans ?_⟩
    rw [← String.append_assoc]
    exact hrun' f { r with log := r.log ++ line } hr

theorem noting_textValues (place : String) (values : List Value) : Noting (textValues place values) := by
  unfold textValues
  generalize ([] : List (String × Value)) = acc
  induction values generalizing acc with
  | nil => exact noting_pure acc
  | cons v rest ih =>
    rw [foldlM_cons]
    refine Noting.bind ?_ ih
    split
    · exact noting_pure _
    · exact (noting_note _).bind fun _ => noting_pure _

theorem noting_enumerationOf (place id : String) (values : List Value) (shown : String) :
    Noting (enumerationOf place id values shown) := by
  unfold enumerationOf
  split
  · exact noting_check (.error .outOfRange)
  · split
    · exact (noting_textValues _ _).bind fun _ => noting_check _
    · exact noting_check _
    · exact noting_check _
    · exact noting_check _
    · exact (noting_note _).bind fun _ => noting_check _

theorem noting_limit (place : String) (values : List Value) : Noting (limit place values) := by
  intro most
  -- the registry is only asked for its limit
  have hlimit : Noting (if values.length > most then do
      note ("ComfyScript: " ++ place ++ ": Too many enum values: " ++ Value.intText values.length ++
        ", truncating to " ++ Value.intText most)
      return takeInt most values
    else return values) := by
    split
    · exact (noting_note _).bind fun _ => noting_pure _
    · exact noting_pure _
  obtain ⟨result, line, hrun⟩ := hlimit most
  refine ⟨result, line, fun f r hr => ?_⟩
  rw [← hrun f r hr, ← hr]
  rfl

theorem noting_readInput (id : String) (declared : Value)
    (configs : List (String × List (String × Value))) : Noting (readInput scope id declared configs) := by
  unfold readInput
  split
  · exact noting_pure _
  · refine (noting_check _).bind fun type => (noting_check _).bind fun n => ?_
    split
    · exact noting_pure _
    · refine (noting_check _).bind fun config => ?_
      split
      · exact noting_pure _
      · split
        · exact (noting_note _).bind fun _ => noting_pure _
        · exact noting_pure _

theorem Noting.of_run {x : Hinting α} (hx : Noting x) {f f' : Findings} {r r' : Registry} {a : α}
    (h : (x.run f).run r = (.ok (a, f'), r')) : f' = f ∧ ∃ log, r' = { r with log := log } := by
  obtain ⟨result, line, hrun⟩ := hx r.maxEnumValues
  rw [hrun f r rfl] at h
  cases result with
  | error e => cases h
  | ok b =>
    cases h
    exact ⟨rfl, _, rfl⟩

/-- A step leads along the relation, and keeps what it finds tidy if it succeeds. -/
structure Evolving (R : Registry → Registry → Prop) (x : Hinting α) : Prop where
  registry : ∀ f r, R r ((x.run f).run r).2
  tidy : ∀ {f r a f' r'}, (x.run f).run r = (.ok (a, f'), r') → f.Tidy → f'.Tidy

include hR

theorem Noting.evolving {x : Hinting α} (hx : Noting x) : Evolving R x where
  registry f r := by
    obtain ⟨result, line, hrun⟩ := hx r.maxEnumValues
    rw [hrun f r rfl]
    exact hR.read (.log _)
  tidy h hf := (hx.of_run h).1 ▸ hf

theorem evolving_pure (a : α) : Evolving R (pure a) := (noting_pure a).evolving hR

theorem evolving_check (result : Except Fault α) : Evolving R (check result) :=
  (noting_check result).evolving hR

theorem evolving_throw (e : Fault) : Evolving R (throw e : Hinting α) := evolving_check hR (.error e)

omit hR in
theorem evolving_update {u : Registry → Registry} (hu : ∀ r, R r (u r)) : Evolving R (update u) where
  registry _ r := hu r
  tidy h hf := by
    cases h
    exact hf

theorem evolving_registry : Evolving R registry where
  registry _ r := hR.refl r
  tidy h hf := by
    cases h
    exact hf

theorem evolving_get : Evolving R (get : Hinting Findings) where
  registry _ r := hR.refl r
  tidy h hf := by
    cases h
    exact hf

theorem evolving_modify {g : Findings → Findings} (hg : ∀ f, f.Tidy → (g f).Tidy) :
    Evolving R (modify g) where
  registry _ r := hR.refl r
  tidy h hf := by
    cases h
    exact hg _ hf

theorem evolving_attach (id : String) (e : Enumeration) (stub : String) :
    Evolving R (attach id e stub) :=
  evolving_modify hR fun _ hf => ⟨hf.nodup, hf.given⟩

theorem Evolving.bind {x : Hinting α} {g : α → Hinting β} (hx : Evolving R x)
    (hg : ∀ a, Evolving R (g a)) : Evolving R (x >>= g) where
  registry f r := by
    have hfirst := hx.registry f r
    rw [StateT.run_bind, run_bind]
    generalize (x.run f).run r = run at hfirst
    obtain ⟨result, r₁⟩ := run
    cases result with
    | error e => exact hfirst
    | ok p => exact hR.trans hfirst ((hg p.1).registry p.2 r₁)
  tidy h hf := by
    obtain ⟨p, r₁, hp, h⟩ := of_run_bind h
    exact (hg p.1).tidy h (hx.tidy hp hf)

theorem Evolving.check_bind {result : Except Fault α} {g : α → Hinting β}
    (hg : ∀ a, result = .ok a → Evolving R (g a)) : Evolving R (check result >>= g) := by
  cases result with
  | error e => exact ⟨fun _ r => hR.refl r, fun h => nomatch h⟩
  | ok a => exact hg a rfl

theorem evolving_mapM {g : α → Hinting β} (hg : ∀ a, Evolving R (g a)) (items : List α) :
    Evolving R (items.mapM g) := by
  induction items with
  | nil => exact evolving_pure hR _
  | cons a rest ih =>
    rw [mapM_cons]
    exact (hg a).bind hR fun _ => ih.bind hR fun _ => evolving_pure hR _

theorem evolving_foldlM {g : β → α → Hinting β} (hg : ∀ b a, Evolving R (g b a)) (items : List α)
    (b : β) : Evolving R (items.foldlM g b) := by
  induction items generalizing b with
  | nil => exact evolving_pure hR _
  | cons a rest ih =>
    rw [foldlM_cons]
    exact (hg b a).bind hR fun b' => ih b'

omit hR

theorem mem_of_sharedId? {node input id : String} (h : Registry.sharedId? node input = some id) :
    id ∈ Registry.sharedInputs.map fun entry => entry.2.2 := by
  obtain ⟨entry, hentry, rfl⟩ := Option.map_eq_some_iff.mp h
  exact mem_map.mpr ⟨entry, mem_of_find?_eq_some hentry, rfl⟩

include hR

theorem evolving_shared? (name : String) (values : Value) : Evolving R (shared? scope name values) := by
  unfold shared?
  refine (evolving_check hR _).bind hR fun nodeName => ?_
  split
  · next id hid =>
    obtain ⟨n, -, hid⟩ := Option.bind_eq_some_iff.mp hid
    refine Evolving.check_bind hR fun p hp => Evolving.bind hR (evolving_update fun r => ?_) fun _ =>
      evolving_pure hR _
    obtain ⟨values', hvalues, hp⟩ := ok_of_bind hp
    obtain ⟨items, hitems, he⟩ := ok_of_bind hp
    refine hR.read (.share (mem_of_sharedId? hid) ?_ he)
    rw [hvalues, ok_bind, hitems]
  · refine (evolving_registry hR).bind hR fun r => (evolving_check hR _).bind hR fun n => ?_
    split
    · exact evolving_pure hR _
    · split
      · exact evolving_pure hR _
      · split
        · exact evolving_pure hR _
        · exact evolving_pure hR _

theorem evolving_choiceHint (name id : String) (choice : Value) :
    Evolving R (choiceHint scope name id choice) := by
  refine (evolving_check hR _).bind hR fun values => (evolving_shared? hR _ _).bind hR fun shared => ?_
  split
  · exact (evolving_attach hR _ _ _).bind hR fun _ => evolving_pure hR _
  · refine (evolving_check hR _).bind hR fun nodeName => ?_
    split
    · exact (evolving_check hR _).bind hR fun p => (evolving_attach hR _ _ _).bind hR fun _ => evolving_pure hR _
    · refine ((noting_limit _ _).evolving hR).bind hR fun kept =>
        ((noting_enumerationOf _ _ _ _).evolving hR).bind hR fun p => ?_
      exact (evolving_attach hR _ _ _).bind hR fun _ => evolving_pure hR _

omit hR in
theorem run_lift_bind (x : Registering α) (g : α → Hinting β) (f : Findings) :
    (StateT.lift x >>= g : Hinting β).run f = x >>= fun a => (g a).run f := by
  simp only [StateT.run_bind, StateT.run_lift, bind_assoc, pure_bind]

omit hR in
theorem run_dataType {type : Value} {raw : String} (hraw : Identifier.nameOf type = .ok raw)
    (f : Findings) (r : Registry) :
    ((dataType type).run f).run r = match r.resolve raw with
      | .inl t => (.ok (t, f), r)
      | .inr id => (.ok (.data id raw, f), declared r raw id) := by
  have hclaim := Registering.run_claim raw r
  rw [dataType, check, hraw, run_lift_bind, 
    run_bind_ok (Registering.run_check (.ok raw) r), run_lift_bind]
  cases hresolve : r.resolve raw with
  | inl t =>
    rw [hresolve] at hclaim
    rw [run_bind_ok hclaim]
    rfl
  | inr id =>
    rw [hresolve] at hclaim
    rw [run_bind_ok hclaim]
    -- the identifier has just been claimed for this name
    have hbinds : ({ r.setVar id (.claimed id raw) with
        dataStubs := Table.put id ("class " ++ id ++ ": ...") r.dataStubs } : Registry).Binds raw id :=
      ⟨.claimed id raw, Table.find?_put_self id _ r.vars, rfl⟩
    simp only [update, run_lift_bind]
    rw [run_bind_ok (run_modify _ _)]
    exact run_bind_ok (Registering.run_bind_of_binds hbinds _)

theorem evolving_dataType (type : Value) : Evolving R (dataType type) := by
  cases hraw : Identifier.nameOf type with
  | error e =>
    have hrun : dataType type = check (.error e) >>= fun _ : TypeRef => dataType type := by
      unfold dataType
      rw [hraw]
      rfl
    rw [hrun]
    exact ⟨fun _ r => hR.refl r, fun h => nomatch h⟩
  | ok raw =>
    refine ⟨fun f r => ?_, fun {f r _ _ _} h hf => ?_⟩
    · rw [run_dataType hraw]
      cases hresolve : r.resolve raw with
      | inl t => exact hR.refl r
      | inr id => exact hR.read (.declare hresolve)
    · rw [run_dataType hraw] at h
      cases hresolve : r.resolve raw with
      | inl t =>
        rw [hresolve] at h
        cases h
        exact hf
      | inr id =>
        rw [hresolve] at h
        cases h
        exact hf

omit hR in
theorem run_dataHint (name : String) (type : Value) (f : Findings) (r : Registry) :
    ((dataHint scope name type).run f).run r =
      if r.imports.isSome && name.toList.contains '.' then ((dottedHint scope name).run f).run r
      else ((do
        let t ← dataType type
        match t.name? with
        | some text => return (t, text)
        | none => throw .missingField : Hinting (TypeRef × String)).run f).run r := by
  rw [dataHint, registry, run_lift_bind, run_bind_ok (run_get r)]
  split
  · rfl
  · rfl

theorem evolving_dottedHint (name : String) (f : Findings) {r : Registry} (hr : r.imports ≠ none) :
    R r (((dottedHint scope name).run f).run r).2 := by
  unfold dottedHint
  split
  · split
    · exact hR.trans (hR.lookUp hr _ id).1 (hR.lookUp (r := r.setVar _ _) hr "" _).2
    · exact hR.trans (hR.read (.log _)) (hR.lookUp (r := r.note _) hr "" _).2
  · exact hR.refl r

omit hR in
theorem of_run_dottedHint {name text : String} {t : TypeRef} {f f' : Findings} {r r' : Registry}
    (h : ((dottedHint scope name).run f).run r = (.ok ((t, text), f'), r')) :
    t = .nothing ∧ f' = f := by
  unfold dottedHint at h
  split at h
  · split at h
    · cases h
      exact ⟨rfl, rfl⟩
    · cases h
      exact ⟨rfl, rfl⟩
  · cases h
    exact ⟨rfl, rfl⟩

theorem evolving_dataHint (name : String) (type : Value) : Evolving R (dataHint scope name type) := by
  have hdata : Evolving R (do
      let t ← dataType type
      match t.name? with
      | some text => return (t, text)
      | none => throw .missingField) := by
    refine (evolving_dataType hR type).bind hR fun t => ?_
    split
    · exact evolving_pure hR _
    · exact evolving_throw hR _
  refine ⟨fun f r => ?_, fun h hf => ?_⟩
  · rw [run_dataHint]
    split
    · next himports =>
      refine evolving_dottedHint hR name f fun hr => ?_
      rw [hr] at himports
      cases himports
    · exact hdata.registry f r
  · rw [run_dataHint] at h
    split at h
    · obtain ⟨-, rfl⟩ := of_run_dottedHint h
      exact hf
    · exact hdata.tidy h hf

theorem evolving_typeHint (isOutput : Bool) (name id : String) (type : Value) :
    Evolving R (typeHint scope isOutput name id type) := by
  have hchoice : Evolving R (do
      if ← check (Choice.isYesNo type) then
        return (TypeRef.basic "bool", "bool", .bool (← check (Choice.startsWithYes type)))
      else
        let hint ← choiceHint scope name id type
        return (hint.1, hint.2.1, hint.2.2.headD .null)) := by
    refine (evolving_check hR _).bind hR fun b => ?_
    split
    · exact (evolving_check hR _).bind hR fun _ => evolving_pure hR _
    · exact (evolving_choiceHint hR _ _ _).bind hR fun _ => evolving_pure hR _
  unfold typeHint
  split
  · exact hchoice
  · exact hchoice
  · split
    · exact evolving_pure hR _
    · split
      · exact evolving_pure hR _
      · exact (evolving_dataHint hR _ _).bind hR fun _ => evolving_pure hR _

theorem evolving_output (name type : Value) : Evolving R (output scope name type) :=
  (evolving_check hR _).bind hR fun _ => (evolving_typeHint hR _ _ _ _).bind hR fun _ => evolving_pure hR _

theorem evolving_input (name : String) (isOptional : Bool) (configured type : Value) :
    Evolving R (input scope name isOptional configured type) := by
  refine (evolving_typeHint hR _ _ _ _).bind hR fun p => ?_
  dsimp only
  split
  · exact evolving_pure hR _
  · next v hv => exact (evolving_modify hR fun f hf => hf.put _ hv).bind hR fun _ => evolving_pure hR _

theorem evolving_readInputs : Evolving R (readInputs scope) := by
  refine (evolving_registry hR).bind hR fun r => evolving_foldlM hR (fun inputs group => ?_) _ _
  refine (evolving_check hR _).bind hR fun found => ?_
  split
  · exact evolving_pure hR _
  · refine (evolving_check hR _).bind hR fun entries => evolving_foldlM hR (fun inputs entry => ?_) _ _
    exact ((noting_readInput _ _ _).evolving hR).bind hR fun _ =>
      (evolving_input hR _ _ _ _).bind hR fun _ => evolving_pure hR _

theorem evolving_readOutputs : Evolving R (readOutputs scope) := by
  refine (evolving_check hR _).bind hR fun outputs => ?_
  refine (evolving_mapM hR (fun p => (evolving_output hR _ _).bind hR fun _ => evolving_pure hR _) _).bind hR
    fun types => ?_
  exact (evolving_mapM hR (fun p => (evolving_output hR _ _).bind hR fun _ => evolving_pure hR _) _).bind hR
    fun texts => evolving_pure hR _

theorem leads_readNode : Evolving R (readNode scope) :=
  (evolving_readInputs hR).bind hR fun _ => (evolving_readOutputs hR).bind hR fun _ =>
    (evolving_check hR _).bind hR fun _ => (evolving_get hR).bind hR fun _ => evolving_pure hR _

omit hR in
theorem evolving_readNode :
    Evolving (fun r r' => r.imports = none → r.Reads r') (readNode scope) :=
  leads_readNode Registry.admits_reads

end Hinting

/-! ## Registering nodes -/

namespace Registering

variable {r : Registry} {held : List String}

def named (info : Value) : Except Fault String := do Identifier.nameOf (← info.entry "name")

def readFor (modules : Modules) (info : Value) (r : Registry) (name id : String) :
    Except Fault ((String × List TypeRef) × Findings) × Registry :=
  ((Hinting.readNode ⟨info, id, modules⟩).run ⟨[], "", []⟩).run (r.setVar id (.claimed id name))

def entryOf (info : Value) (types : List TypeRef) (findings : Findings) : NodeEntry :=
  ⟨info, findings.defaults, types, findings.attached⟩

inductive Added (modules : Modules) (make : NodeEntry → Except Fault (Option String)) (info : Value)
    (r : Registry) : Except Fault Unit × Registry → Prop where
  | unnamed {e : Fault} (hname : named info = .error e) : Added modules make info r (.error e, r)
  | known {name : String} {t : TypeRef} (hname : named info = .ok name)
      (hresolve : r.resolve name = .inl t) :
    Added modules make info r (.ok (), r.note ("ComfyScript: Node already exists: " ++ info.text))
  | unread {name id : String} {e : Fault} {r' : Registry} (hname : named info = .ok name)
      (hresolve : r.resolve name = .inr id) (hread : readFor modules info r name id = (.error e, r')) :
    Added modules make info r (.error e, r')
  | unmade {name id stub : String} {types : List TypeRef} {findings : Findings} {e : Fault}
      {r' : Registry} (hname : named info = .ok name) (hresolve : r.resolve name = .inr id)
      (hread : readFor modules info r name id = (.ok ((stub, types), findings), r'))
      (hmake : make (entryOf info types findings) = .error e) :
    Added modules make info r (.error e, { r' with nodeStubs := r'.nodeStubs ++ [stub] })
  | made {name id stub : String} {types : List TypeRef} {findings : Findings}
      {className : Option String} {r' : Registry} (hname : named info = .ok name)
      (hresolve : r.resolve name = .inr id)
      (hread : readFor modules info r name id = (.ok ((stub, types), findings), r'))
      (hmake : make (entryOf info types findings) = .ok className) :
    Added modules make info r (.ok (), { r'.setVar id (.node name className) with
      nodeStubs := r'.nodeStubs ++ [stub]
      nodes := Table.put name (entryOf info types findings) r'.nodes })

theorem reads_readFor (hr : r.imports = none) (modules : Modules) (info : Value) (name id : String) :
    (r.setVar id (.claimed id name)).Reads (readFor modules info r name id).2 :=
  Hinting.evolving_readNode.registry _ (r.setVar id (.claimed id name)) hr

theorem evolves_readFor (hr : r.Sound held) (modules : Modules) (info : Value) {name id : String}
    (hresolve : r.resolve name = .inr id) :
    r.Evolves (readFor modules info r name id).2 ∧ (readFor modules info r name id).2.Binds name id := by
  have hclaimed : r.Evolves (r.setVar id (.claimed id name)) := .single (.claim hresolve)
  have hbinds : (r.setVar id (.claimed id name)).Binds name id :=
    ⟨_, Table.find?_put_self id _ r.vars, rfl⟩
  have hreads := (reads_readFor hr.imports modules info name id).evolves
  exact ⟨hclaimed.trans hreads, hbinds.of_evolves (hr.of_evolves hclaimed) hreads⟩

/-- A node is registered as its description says, unless the claim for its name has not outlived the
reading. -/
theorem addNode_cases (modules : Modules) (make : NodeEntry → Except Fault (Option String)) (info : Value)
    (r : Registry) :
    Added modules make info r ((addNode modules make info).run r) ∨
      ∃ name id stub types findings r' e, named info = .ok name ∧ r.resolve name = .inr id ∧
        readFor modules info r name id = (.ok ((stub, types), findings), r') ∧ ¬ r'.Binds name id ∧
        (addNode modules make info).run r = (.error e, { r' with nodeStubs := r'.nodeStubs ++ [stub] }) := by
  unfold addNode
  rw [← named.eq_def info]
  cases hname : named info with
  | error e =>
    rw [run_bind_error (run_check _ r)]
    exact .inl (.unnamed hname)
  | ok name =>
    have hclaim := run_claim name r
    rw [run_bind_ok (run_check _ r)]
    cases hresolve : r.resolve name with
    | inl t =>
      rw [hresolve] at hclaim
      rw [run_bind_ok hclaim]
      exact .inl (.known hname hresolve)
    | inr id =>
      rw [hresolve] at hclaim
      rw [run_bind_ok hclaim]
      rcases hread : readFor modules info r name id with ⟨e | p, r'⟩
      · dsimp only
        rw [run_bind_error hread]
        exact .inl (.unread hname hresolve hread)
      · obtain ⟨⟨stub, types⟩, findings⟩ := p
        dsimp only
        rw [run_bind_ok hread]
        dsimp only
        rw [run_bind_ok (run_modify _ _), ← entryOf.eq_def info types findings]
        cases hmake : make (entryOf info types findings) with
        | error e =>
          rw [run_bind_error (run_check _ _)]
          exact .inl (.unmade hname hresolve hread hmake)
        | ok className =>
          rw [run_bind_ok (run_check _ _)]
          rcases run_bind_cases name id (.node name className)
            { r' with nodeStubs := r'.nodeStubs ++ [stub] } with hbound | ⟨hbinds, e, hfailed⟩
          · rw [run_bind_ok hbound]
            exact .inl (.made hname hresolve hread hmake)
          · rw [run_bind_error hfailed]
            exact .inr ⟨name, id, stub, types, findings, r', e, rfl, hresolve, hread, hbinds, rfl⟩

theorem added_addNode (hr : r.Sound held) (modules : Modules)
    (make : NodeEntry → Except Fault (Option String)) (info : Value) :
    Added modules make info r ((addNode modules make info).run r) := by
  rcases addNode_cases modules make info r with hadded | ⟨_, _, _, _, _, _, _, -, hresolve, hread, hbinds, -⟩
  · exact hadded
  · have hclaimed := (evolves_readFor hr modules info hresolve).2
    rw [hread] at hclaimed
    exact absurd hclaimed hbinds

theorem evolves_addNode (hr : r.Sound held) (modules : Modules)
    (make : NodeEntry → Except Fault (Option String)) (info : Value) :
    r.Evolves ((addNode modules make info).run r).2 := by
  have hadded := added_addNode hr modules make info
  generalize (addNode modules make info).run r = p at hadded
  cases hadded with
  | unnamed _ => exact .refl
  | known _ _ => exact .single (.aside rfl rfl)
  | unread _ hresolve hread =>
    have hevolves := (evolves_readFor hr modules info hresolve).1
    rw [hread] at hevolves
    exact hevolves
  | unmade _ hresolve hread _ =>
    have hevolves := (evolves_readFor hr modules info hresolve).1
    rw [hread] at hevolves
    exact hevolves.tail (.aside rfl rfl)
  | made _ hresolve hread _ =>
    obtain ⟨hevolves, hbinds⟩ := evolves_readFor hr modules info hresolve
    rw [hread] at hevolves hbinds
    exact (hevolves.tail (.bind hbinds rfl)).tail (.aside rfl rfl)

inductive Embedded (r : Registry) : Registry → Prop where
  | noted (log : String) : Embedded r { r with log := log }
  | listed {values : Value} {items : List Value} {texts : List String} {stub : String} {e : Enumeration}
      (hitems : values.iterate = .ok items) (htexts : items.map Value.text? = texts.map some)
      (he : Enumeration.ofTexts embeddingsId "" (Value.merge [] (texts.map fun s =>
        (s, .str (embeddingMark ++ s)))) = .ok (stub, e)) :
    Embedded r { r.setVar embeddingsId (.enumeration e) with
      sharedStubs := Table.put embeddingsId (stub ++ "\n    def name(self) -> str: ...\n") r.sharedStubs
      sharedValues := Table.put embeddingsId values r.sharedValues }

theorem run_addEmbeddings (embeddings : Except Fault Value) (r : Registry) :
    ∃ r', (addEmbeddings embeddings).run r = (.ok (), r') ∧ Embedded r r' := by
  rw [addEmbeddings, run_tryCatch]
  cases embeddings with
  | error e => exact ⟨_, rfl, .noted _⟩
  | ok listed =>
    rw [run_bind_ok (run_check _ r), setEmbeddings]
    generalize hkeyed : (do (← listed.iterate).foldlM _ [] : Except Fault _) = keyed
    cases keyed with
    | error e => exact ⟨_, rfl, .noted _⟩
    | ok keyed =>
      rw [run_bind_ok (run_check _ r)]
      cases he : Enumeration.ofTexts embeddingsId "" keyed with
      | error e => exact ⟨_, rfl, .noted _⟩
      | ok made =>
        rw [run_bind_ok (run_check _ r)]
        dsimp only
        by_cases hname : (made.2.members.any fun m => m.name == "name") = true
        · rw [if_pos hname]
          exact ⟨_, rfl, .noted _⟩
        · rw [if_neg hname]
          obtain ⟨items, hitems, hfold⟩ := ok_of_bind hkeyed
          obtain ⟨texts, htexts, rfl⟩ : ∃ texts : List String, items.map Value.text? = texts.map some ∧
              keyed = Value.merge [] (texts.map fun s => (s, .str (embeddingMark ++ s))) := by
            clear hkeyed hitems he
            generalize ([] : List (String × Value)) = acc at hfold ⊢
            induction items generalizing acc with
            | nil => exact ⟨[], rfl, (Except.ok.inj hfold).symm⟩
            | cons v rest ih =>
              obtain ⟨acc', hstep, hrest⟩ := ok_of_bind hfold
              obtain ⟨texts, htexts, rfl⟩ := ih acc' hrest
              dsimp only at hstep
              split at hstep
              · cases hstep
              · split at hstep
                · rename_i s hs
                  cases hstep
                  exact ⟨s :: texts, by rw [map_cons, hs, htexts]; rfl, rfl⟩
                · cases hstep
          exact ⟨_, rfl, .listed hitems htexts he⟩

theorem Embedded.nodes {r' : Registry} (h : Embedded r r') : r'.nodes = r.nodes := by
  cases h <;> rfl

end Registering

namespace Registry

structure Unnamed (r : Registry) : Prop where
  raw? : ∀ entry ∈ r.vars, entry.2.raw? = none
  shared : ∀ entry ∈ sharedInputs, entry.2.2 ∈ r.vars.map Prod.fst
  imports : r.imports = none

theorem unnamed_empty (hiddenInputs : Bool) (maxEnumValues : Int) :
    (empty hiddenInputs maxEnumValues false).Unnamed := by
  refine ⟨?_, ?_, rfl⟩
  · intro entry hentry
    obtain ⟨_, _, rfl⟩ := mem_map.mp hentry
    rfl
  · intro entry hentry
    exact mem_map.mpr ⟨_, mem_map.mpr ⟨entry, hentry, rfl⟩, rfl⟩

/-- The registry that nodes are added to: without nodes, and with the embeddings that a server lists
if it was asked. -/
def initial (hiddenInputs : Bool) (maxEnumValues : Int) :
    (embeddings : Option (Except Fault Value)) → Registry
  | none => empty hiddenInputs maxEnumValues false
  | some listed => ((Registering.addEmbeddings listed).run
      (empty hiddenInputs maxEnumValues false)).2

variable {r : Registry}

theorem Unnamed.setVar (h : r.Unnamed) (id : String) {t : TypeRef} (ht : t.raw? = none) :
    (r.setVar id t).Unnamed := by
  refine ⟨?_, ?_, h.imports⟩
  · intro entry hentry
    rcases Table.mem_put hentry with hold | hnew
    · exact h.raw? entry hold
    · rw [hnew, ht]
  · intro entry hentry
    rcases Table.map_fst_put id t r.vars with hkeys | ⟨-, hkeys⟩
    · exact hkeys ▸ h.shared entry hentry
    · exact hkeys ▸ mem_append_left _ (h.shared entry hentry)

theorem Unnamed.addEmbeddings (h : r.Unnamed) (embeddings : Except Fault Value) :
    ((Registering.addEmbeddings embeddings).run r).2.Unnamed := by
  obtain ⟨r', hrun, hembedded⟩ := Registering.run_addEmbeddings embeddings r
  rw [hrun]
  cases hembedded with
  | noted _ => exact ⟨h.raw?, h.shared, h.imports⟩
  | @listed _ _ _ _ e _ _ _ =>
    have hset := h.setVar Registering.embeddingsId (t := .enumeration e) rfl
    exact ⟨hset.raw?, hset.shared, hset.imports⟩

theorem Unnamed.sound (h : r.Unnamed) : r.Sound (r.vars.map Prod.fst) := by
  refine ⟨?_, ?_, h.shared, h.imports⟩
  · rintro raw id ⟨t, ht, hraw⟩
    rw [h.raw? _ (Table.mem_of_find? ht)] at hraw
    cases hraw
  · intro id hid
    cases hfind : Table.find? id r.vars with
    | none => exact absurd hid (Table.find?_eq_none_iff.mp hfind)
    | some t => exact ⟨t, rfl, h.raw? _ (Table.mem_of_find? hfind)⟩

theorem unnamed_initial (hiddenInputs : Bool) (maxEnumValues : Int)
    (embeddings : Option (Except Fault Value)) :
    (initial hiddenInputs maxEnumValues embeddings).Unnamed := by
  cases embeddings with
  | none => exact unnamed_empty hiddenInputs maxEnumValues
  | some listed => exact (unnamed_empty hiddenInputs maxEnumValues).addEmbeddings listed

theorem sound_initial (hiddenInputs : Bool) (maxEnumValues : Int)
    (embeddings : Option (Except Fault Value)) :
    (initial hiddenInputs maxEnumValues embeddings).Sound
      ((initial hiddenInputs maxEnumValues embeddings).vars.map Prod.fst) :=
  (unnamed_initial hiddenInputs maxEnumValues embeddings).sound

/-! ## Sequences of registrations -/

structure Adding where
  modules : Modules
  make : NodeEntry → Except Fault (Option String)
  info : Value

/-- The registry after nodes have been added one after another, each of them successfully or not. -/
def addNodes (r : Registry) (added : List Adding) : Registry :=
  added.foldl (fun r a => ((Registering.addNode a.modules a.make a.info).run r).2) r

theorem evolves_addNodes {held : List String} (hr : r.Sound held) (added : List Adding) :
    r.Evolves (r.addNodes added) := by
  induction added generalizing r with
  | nil => exact .refl
  | cons a rest ih =>
    have hfirst := Registering.evolves_addNode hr a.modules a.make a.info
    exact hfirst.trans (ih (hr.of_evolves hfirst))

/-- A registry that asking for embeddings and adding nodes, successfully or not, leads to from the one
without nodes; `Named` holds of the classes of nodes. -/
inductive Reached (Named : String → Prop) (hiddenInputs : Bool) (maxEnumValues : Int) : Registry → Prop where
  | empty : Reached Named hiddenInputs maxEnumValues (empty hiddenInputs maxEnumValues false)
  | init {r : Registry} (h : Reached Named hiddenInputs maxEnumValues r) (embeddings : Except Fault Value) :
    Reached Named hiddenInputs maxEnumValues ((Registering.addEmbeddings embeddings).run r).2
  | add {r : Registry} (h : Reached Named hiddenInputs maxEnumValues r) (a : Adding)
      (ha : ∀ entry name, a.make entry = .ok (some name) → Named name) :
    Reached Named hiddenInputs maxEnumValues ((Registering.addNode a.modules a.make a.info).run r).2

inductive Step (Named : String → Prop) (r : Registry) : Registry → Prop where
  | read {r' : Registry} (h : r.ReadStep r') : Step Named r r'
  | claim {raw id : String} (h : r.resolve raw = .inr id) : Step Named r (r.setVar id (.claimed id raw))
  | embed {r' : Registry} (h : Registering.Embedded r r') : Step Named r r'
  | node {raw id : String} {className : Option String} (stubs : List String)
      (nodes : List (String × NodeEntry)) (h : r.Binds raw id)
      (hname : ∀ name, className = some name → Named name) :
    Step Named r { r.setVar id (.node raw className) with nodeStubs := stubs, nodes := nodes }
  | stub (stubs : List String) : Step Named r { r with nodeStubs := stubs }

def keptIds : List String := sharedInputs.map fun entry => entry.2.2

theorem Reached.induct {Named : String → Prop} {hiddenInputs : Bool} {maxEnumValues : Int}
    (P : Registry → Prop) (hempty : P (Registry.empty hiddenInputs maxEnumValues false))
    (hstep : ∀ r r', P r → r.Step Named r' → P r') (h : r.Reached Named hiddenInputs maxEnumValues) :
    r.Sound keptIds ∧ P r := by
  induction h with
  | empty => exact ⟨(unnamed_empty hiddenInputs maxEnumValues).sound, hempty⟩
  | init _ embeddings ih =>
    obtain ⟨r', hrun, hembedded⟩ := Registering.run_addEmbeddings embeddings _
    rw [hrun]
    refine ⟨?_, hstep _ _ ih.2 (.embed hembedded)⟩
    cases hembedded with
    | noted log => exact ih.1.of_change (.aside rfl rfl)
    | listed _ _ _ => exact (ih.1.setVar_unnamed _ rfl).of_change (.aside rfl rfl)
  | @add r _ a ha ih =>
    refine ⟨ih.1.of_evolves (Registering.evolves_addNode ih.1 a.modules a.make a.info), ?_⟩
    -- a claim, what reading does, and perhaps a node
    have hread {name id : String} (hresolve : r.resolve name = .inr id) :
        P (Registering.readFor a.modules a.info r name id).2 := by
      have hreads := Registering.reads_readFor ih.1.imports a.modules a.info name id
      generalize (Registering.readFor a.modules a.info r name id).2 = r' at hreads
      induction hreads with
      | refl => exact hstep _ _ ih.2 (.claim hresolve)
      | tail _ hread hP => exact hstep _ _ hP (.read hread)
    have hadded := Registering.added_addNode ih.1 a.modules a.make a.info
    generalize (Registering.addNode a.modules a.make a.info).run r = p at hadded
    cases hadded with
    | unnamed _ => exact ih.2
    | known _ _ => exact hstep _ _ ih.2 (.read (.log _))
    | unread _ hresolve hrun =>
      have hP := hread hresolve
      rw [hrun] at hP
      exact hP
    | unmade _ hresolve hrun _ =>
      have hP := hread hresolve
      rw [hrun] at hP
      exact hstep _ _ hP (.stub _)
    | made _ hresolve hrun hmake =>
      have hP := hread hresolve
      have hbinds := (Registering.evolves_readFor ih.1 a.modules a.info hresolve).2
      rw [hrun] at hP hbinds
      exact hstep _ _ hP (.node _ _ hbinds fun name hname => ha _ name (hname ▸ hmake))

end Registry

end Flowscript
