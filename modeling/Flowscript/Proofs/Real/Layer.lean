import Flowscript.Proofs.Real.Tracking

/-!
# Calls in a layer

A call in a layer has three parts. The layer approaches the call: it binds the arguments and calls
the virtual node. It fills in hidden inputs. Then it concludes the call: it looks the result up, or
delivers what the method gives. Only the last part may change the workflow under way, and only there
does a call with a cache differ from one without.
-/

namespace Flowscript

open List

open Value (blank mask mapValues)

namespace Value

/-- Results that differ in the identities and inputs of the outputs they are wrapped with only. -/
def Alike (v w : Value) : Prop := v.maskResult = w.maskResult

theorem Alike.of_mask {v w : Value} (h : mask v = mask w) : Alike v w := by
  rw [Alike, ← maskResult_mask v, h, maskResult_mask]

theorem maskResult_cases (v : Value) :
    (∃ items, v = list items) ∨ maskResult v = mask v ∧ ∀ items, mask v ≠ list items := by
  cases v with
  | list items => exact .inl ⟨items, rfl⟩
  | _ => exact .inr ⟨rfl, fun _ => nofun⟩

theorem Alike.cases {v w : Value} (h : Alike v w) :
    (∃ items items', v = list items ∧ w = list items' ∧ items.map mask = items'.map mask) ∨
      mask v = mask w ∧ (∀ items, v ≠ list items) ∧ ∀ items, w ≠ list items := by
  have hsingle {u : Value} (hne : ∀ items, mask u ≠ list items) (items : List Value) : u ≠ list items := by
    rintro rfl
    exact hne items rfl
  rw [Alike] at h
  obtain ⟨items, rfl⟩ | ⟨hv, hne⟩ := maskResult_cases v
  · obtain ⟨items', rfl⟩ | ⟨hw, hne⟩ := maskResult_cases w
    · exact .inl ⟨items, items', rfl, rfl, list.inj h⟩
    · exact absurd (hw.symm.trans h.symm) (hne _)
  · obtain ⟨items', rfl⟩ | ⟨hw, hne'⟩ := maskResult_cases w
    · exact absurd (hv.symm.trans h) (hne _)
    · exact .inr ⟨hv.symm.trans (h.trans hw), hsingle hne, hsingle hne'⟩

theorem map_mask_zip (items outputs : List Value) :
    ((items.zip outputs).map fun (v, o) => wrapped v o).map mask =
      (items.zip (outputs.map blank)).map fun (v, o) => wrapped v o := by
  rw [zip_map_right, map_map, map_map]
  rfl

end Value

structure Setting where
  outputs : Option (List Value)
  arguments : List Value
  given : List (String × Value)
  named : List (String × Value)

/-- No hidden input of the layer asks for the prompt or for the id of the call. -/
def Layer.Plain (l : Layer) : Prop :=
  ∀ hidden entries, NodeInfo.group? l.info "hidden" = .ok (some hidden) →
    hidden.bare = .dict entries →
      ∀ entry ∈ entries, (entry.2 == .str "PROMPT") = false ∧ (entry.2 == .str "UNIQUE_ID") = false

def RealState.uncached (s : RealState) : RealState := { s with workflow := some ⟨.none, [], []⟩ }

def RealState.NoCache (s : RealState) : Prop :=
  s.active = true → ∀ w, s.workflow = some w → w.policy = .none

theorem RealState.noCache_uncached (s : RealState) : s.uncached.NoCache := by
  rintro - w hw
  cases hw
  rfl

namespace RealM

variable {arguments : List Value} {named : List (String × Value)} {s : RealState} {cache : Cache}
  {made : Made} {places : List (String × Option Cache)}

def approach (l : Layer) (arguments : List Value) (named : List (String × Value)) :
    RealM Setting := do
  let (arguments, named, given) ← bindArguments l arguments named
  let outputs ← if l.config.tracks then track l named else pure none
  return ⟨outputs, arguments, given,
    if l.config.tracks then named.map fun (k, v) => (k, unwrap v) else named⟩

def fill (l : Layer) (t : Setting) : Except Fault (List (String × Value)) :=
  match t.outputs, l.config.injectsInputs with
  | some outputs, true => injectInputs l outputs t.given t.named
  | _, _ => .ok t.named

def deliver (l : Layer) (made : Made) (outputs : Option (List Value)) (arguments : List Value)
    (named : List (String × Value)) : RealM Value := do
  let results ← runMethod made arguments named
  let results ← match outputs with
    | some outputs => wrapResults l results outputs
    | none => pure results
  if l.config.unpacksSingle then unpackSingle results else pure results

def promptOf (outputs : Option (List Value)) : Except Fault String := do
  (← Prompt.ofOutput (← firstOutput outputs)).json

theorem isSome_of_promptOf {outputs : Option (List Value)} {prompt : String}
    (h : promptOf outputs = .ok prompt) : outputs.isSome = true := by
  cases outputs with
  | none => cases h
  | some outputs => rfl

def keep (name prompt : String) (results : Value) : RealM Value := do
  modify fun s => { s with workflow := s.workflow.map (·.remember name prompt results) }
  return results

def recallFrom (l : Layer) (made : Made) (name : String) (cache : Cache)
    (outputs : Option (List Value)) (arguments : List Value) (named : List (String × Value)) :
    RealM Value := do
  let prompt ← check (promptOf outputs)
  match (Value.lookup prompt cache).getD .null with
  | .null => deliver l made outputs arguments named >>= keep name prompt
  | found => return found

def conclude (l : Layer) (made : Made) (outputs : Option (List Value)) (arguments : List Value)
    (named : List (String × Value)) : RealM Value := do
  match ← cacheOf l with
  | none => deliver l made outputs arguments named
  | some (name, cache) => recallFrom l made name cache outputs arguments named

theorem callLayer_eq (hl : l.Full) :
    callLayer l made arguments named = approach l arguments named >>= fun t =>
      check (fill l t) >>= fun filled => conclude l made t.outputs t.arguments filled := by
  unfold callLayer approach conclude recallFrom deliver keep fill
  simp only [hl.config, RealConfig.full, if_true, bind_assoc, pure_bind]
  refine bind_congr fun p => bind_congr fun outputs => ?_
  cases outputs with
  | none =>
    refine bind_congr fun cached => ?_
    cases cached with
    | none => simp only [bind_pure]
    | some place =>
      refine bind_congr fun prompt => ?_
      dsimp only
      cases (Value.lookup prompt place.2).getD .null <;> rfl
  | some outputs =>
    refine bind_congr fun filled => bind_congr fun cached => ?_
    cases cached with
    | none => simp only [bind_pure]
    | some place =>
      refine bind_congr fun prompt => ?_
      dsimp only
      cases (Value.lookup prompt place.2).getD .null <;> simp only [bind_assoc]

theorem approach_eq (hl : l.Full) :
    approach l arguments named = virtual (SessionM.bindPositional l.info arguments) >>= fun bound =>
      track l (Value.merge l.defaults (Value.merge bound named)) >>= fun outputs =>
        pure ⟨outputs, [], Value.merge bound named,
          mapValues unwrap (Value.merge l.defaults (Value.merge bound named))⟩ := by
  unfold approach bindArguments
  simp only [hl.config, RealConfig.full, if_true, bind_assoc, pure_bind]
  rfl

/-! ## What results depend on -/

structure Setting.Alike (l : Layer) (t t' : Setting) : Prop where
  outputs : l.Stand t.outputs t'.outputs
  arguments : t.arguments = t'.arguments
  named : t.named = t'.named

variable {l : Layer}

theorem agree_approach (hl : l.Full) {arguments' : List Value} {named' : List (String × Value)}
    (harguments : arguments.map mask = arguments'.map mask)
    (hnamed : mapValues mask named = mapValues mask named') :
    Agree Eq (Setting.Alike l) (approach l arguments named) (approach l arguments' named') := by
  rw [approach_eq hl, approach_eq hl]
  refine (agree_virtual (SessionM.agree_bindPositional mask l.info harguments)).bind
    fun bound bound' hbound => ?_
  have hmasked : mapValues mask (Value.merge l.defaults (Value.merge bound named)) =
      mapValues mask (Value.merge l.defaults (Value.merge bound' named')) := by
    simp only [Value.mapValues_merge, hbound, hnamed]
  refine (agree_track hl hmasked).bind fun outputs outputs' houtputs => ?_
  refine agree_pure ⟨houtputs, rfl, ?_⟩
  have hunwrap (entries : List (String × Value)) :
      mapValues unwrap entries = mapValues unwrap (mapValues mask entries) := by
    rw [Value.mapValues_mapValues]
    simp only [Value.unwrap_mask]
  rw [hunwrap, hmasked, ← hunwrap]

theorem agree_runMethod :
    Agree Eq Eq (runMethod made arguments named) (runMethod made arguments named) := by
  cases made with
  | value v => exact fun _ _ => .error rfl
  | object c =>
    unfold runMethod
    dsimp only
    cases c.attribute? "FUNCTION" with
    | none => exact fun _ _ => .error rfl
    | some function =>
      dsimp only
      cases function.text? with
      | none => exact fun _ _ => .error rfl
      | some name =>
        dsimp only
        cases Table.find? name c.methods with
        | none => exact fun _ _ => .error rfl
        | some m => exact (agree_modify _ _).bind fun _ _ _ => agree_check_self _

theorem resultCount_mask (v : Value) : resultCount (mask v) = resultCount v := by
  cases v with
  | wrapped inner o => cases inner <;> rfl
  | _ => rfl

theorem agree_wrapResults (results : Value) {outputs outputs' : List Value}
    (h : outputs.map blank = outputs'.map blank) :
    Agree Eq Value.Alike (wrapResults l results outputs) (wrapResults l results outputs') := by
  have hlength : outputs.length = outputs'.length := by
    simpa using congrArg List.length h
  unfold wrapResults
  refine (agree_check_self (resultCount results)).bind fun count count' hcount => ?_
  subst hcount
  cases count with
  | none => exact agree_pure rfl
  | some count =>
    have hwrap : Agree Eq Value.Alike
        (check (unwrap results).iterate >>= fun items =>
          pure (.list ((items.zip outputs).map fun (v, output) => .wrapped v output)))
        (check (unwrap results).iterate >>= fun items =>
          pure (.list ((items.zip outputs').map fun (v, output) => .wrapped v output))) := by
      refine (agree_check_self (unwrap results).iterate).bind fun items items' hitems => ?_
      subst hitems
      refine agree_pure (congrArg Value.list ?_)
      rw [Value.map_mask_zip, Value.map_mask_zip, h]
    dsimp only
    rw [hlength]
    split
    · refine (agree_check_self (l.info.entry "name")).bind fun _ _ _ => ?_
      exact (agree_virtual (agree_modify _ _)).bind fun _ _ _ => hwrap
    · exact hwrap

theorem agree_unpackSingle {results results' : Value} (h : results.Alike results') :
    Agree Eq Value.Alike (unpackSingle results) (unpackSingle results') := by
  unfold unpackSingle
  obtain ⟨items, items', rfl, rfl, hitems⟩ | ⟨hmask, -⟩ := h.cases
  · cases items with
    | nil =>
      obtain rfl : items' = [] := by simpa using hitems.symm
      exact agree_pure rfl
    | cons v rest =>
      obtain ⟨v', rest', rfl, hv, hrest⟩ := map_eq_cons_iff.mp hitems.symm
      cases rest with
      | nil =>
        obtain rfl : rest' = [] := by simpa using hrest
        exact fun _ _ => .ok (.of_mask hv.symm)
      | cons w rest =>
        obtain ⟨w', rest', rfl, -⟩ := map_eq_cons_iff.mp hrest
        exact agree_pure (congrArg Value.list hitems)
  · have hcount : resultCount results = resultCount results' := by
      rw [← resultCount_mask, hmask, resultCount_mask]
    have hunwrap : unwrap results = unwrap results' := by
      rw [← Value.unwrap_mask, hmask, Value.unwrap_mask]
    rw [hcount, hunwrap]
    refine (agree_check_self (resultCount results')).bind fun count count' hsame => ?_
    subst hsame
    split
    · exact (agree_check_self _).mono (fun _ _ => id) fun _ _ heq => congrArg Value.maskResult heq
    · exact agree_pure h

theorem agree_deliver (hl : l.Full) (made : Made) {outputs outputs' : Option (List Value)}
    (h : l.Stand outputs outputs') (arguments : List Value) (named : List (String × Value)) :
    Agree Eq Value.Alike (deliver l made outputs arguments named)
      (deliver l made outputs' arguments named) := by
  unfold deliver
  simp only [hl.config, RealConfig.full, if_true]
  refine agree_runMethod.bind fun results results' hresults => ?_
  subst hresults
  cases h with
  | untracked => exact agree_unpackSingle rfl
  | tracked houtputs houtputs' =>
    exact (agree_wrapResults results (houtputs.trans houtputs'.symm)).bind fun _ _ => agree_unpackSingle

/-! ## Hidden inputs -/

theorem injectInput_plain {kind : Value} (hprompt : (kind == .str "PROMPT") = false)
    (hid : (kind == .str "UNIQUE_ID") = false) (output : Value) (given named : List (String × Value))
    (key : String) : injectInput output given named key kind = .ok named := by
  simp only [injectInput, hprompt, hid, Bool.false_eq_true, if_false, ite_self]

theorem injectInputs_plain (hl : l.Plain) {outputs outputs' : List Value}
    (h : outputs.length = outputs'.length) (given given' named : List (String × Value)) :
    injectInputs l outputs given named = injectInputs l outputs' given' named := by
  unfold injectInputs
  cases hgroup : NodeInfo.group? l.info "hidden" with
  | error e => rfl
  | ok group =>
    cases group with
    | none => rfl
    | some hidden =>
      simp only [ok_bind]
      split
      · rename_i entries hentries
        have hkept (o : Value) (rest : List Value) (given : List (String × Value)) :
            entries.foldlM (fun named entry => do
              injectInput (← firstOutput (some (o :: rest))) given named entry.1 entry.2) named =
                Except.ok named :=
          foldlM_eq_ok fun entry hentry => injectInput_plain (hl hidden entries hgroup hentries entry hentry).1
            (hl hidden entries hgroup hentries entry hentry).2 o given named entry.1
        cases outputs with
        | nil =>
          obtain rfl := length_eq_zero_iff.mp h.symm
          cases entries <;> rfl
        | cons o rest =>
          cases outputs' with
          | nil => cases h
          | cons o' rest' => exact (hkept o rest given).trans (hkept o' rest' given').symm
      · rfl

theorem fill_plain (hl : l.Plain) {t t' : Setting} (h : Setting.Alike l t t') : fill l t = fill l t' := by
  obtain ⟨outputs, arguments, given, named⟩ := t
  obtain ⟨outputs', arguments', given', named'⟩ := t'
  obtain ⟨houtputs, -, rfl⟩ := h
  cases houtputs with
  | untracked => rfl
  | tracked h h' =>
    have hlength := congrArg List.length (h.trans h'.symm)
    simp only [length_map] at hlength
    unfold fill
    cases l.config.injectsInputs with
    | false => rfl
    | true => exact injectInputs_plain hl hlength _ _ _

/-! ## What a call changes -/

/-- The step neither reads nor changes the workflow under way; what it changes is the session and
the list of runs. -/
def Aside {α : Type} (x : RealM α) : Prop :=
  ∀ s : RealState, ∃ result session runs, ∀ w, x.run { s with workflow := w } =
    (result, { s with session := session, runs := runs, workflow := w })

section Aside

variable {α β : Type}

theorem aside_pure (a : α) : Aside (pure a : RealM α) :=
  fun s => ⟨.ok a, s.session, s.runs, fun _ => rfl⟩

theorem aside_check (result : Except Fault α) : Aside (check result) :=
  fun s => ⟨result, s.session, s.runs, fun _ => rfl⟩

theorem aside_virtual (x : SessionM Unit α) : Aside (virtual x) :=
  fun s => ⟨(x.run s.session).1, (x.run s.session).2, s.runs, fun _ => rfl⟩

theorem Aside.bind {x : RealM α} {f : α → RealM β} (hx : Aside x) (hf : ∀ a, Aside (f a)) :
    Aside (x >>= f) := by
  intro s
  obtain ⟨result, session, runs, hs⟩ := hx s
  cases result with
  | error e => exact ⟨.error e, session, runs, fun w => run_bind_error (hs w)⟩
  | ok a =>
    obtain ⟨result', session', runs', hs'⟩ := hf a { s with session := session, runs := runs }
    exact ⟨result', session', runs', fun w => (run_bind_ok (hs w)).trans (hs' w)⟩

theorem Aside.tryCatch {x : RealM α} {handle : Fault → RealM α} (hx : Aside x)
    (hh : ∀ e, Aside (handle e)) : Aside (MonadExcept.tryCatch x handle) := by
  intro s
  obtain ⟨result, session, runs, hs⟩ := hx s
  cases result with
  | error e =>
    obtain ⟨result', session', runs', hs'⟩ := hh e { s with session := session, runs := runs }
    refine ⟨result', session', runs', fun w => ?_⟩
    rw [run_tryCatch, hs w]
    exact hs' w
  | ok a =>
    refine ⟨.ok a, session, runs, fun w => ?_⟩
    rw [run_tryCatch, hs w]

end Aside

theorem aside_approach (hl : l.Full) : Aside (approach l arguments named) := by
  rw [approach_eq hl]
  refine (aside_virtual _).bind fun bound => Aside.bind ?_ fun outputs => aside_pure _
  unfold track
  refine Aside.tryCatch ((aside_virtual _).bind fun v => ?_) fun e => ?_
  · split
    · exact aside_pure _
    · exact aside_pure _
  · exact (aside_check _).bind fun name => (aside_virtual _).bind fun _ => aside_pure none

theorem aside_deliver (hl : l.Full) (made : Made) (outputs : Option (List Value)) (arguments : List Value)
    (named : List (String × Value)) : Aside (deliver l made outputs arguments named) := by
  have hthrow {α : Type} (e : Fault) : Aside (throw e : RealM α) := aside_check (.error e)
  have hmethod : Aside (runMethod made arguments named) := by
    unfold runMethod
    split
    · exact hthrow _
    · split
      · exact hthrow _
      · split
        · exact hthrow _
        · split
          · exact hthrow _
          · rename_i m _
            refine Aside.bind (fun s => ⟨.ok (), s.session, s.runs ++ [⟨m.owner, arguments, named⟩],
              fun _ => rfl⟩) fun _ => aside_check _
  have hwrap (results : Value) (outputs : List Value) : Aside (wrapResults l results outputs) := by
    unfold wrapResults
    refine (aside_check _).bind fun count => ?_
    split
    · exact aside_pure _
    · have hitems := (aside_check (unwrap results).iterate).bind fun items =>
        aside_pure (Value.list ((items.zip outputs).map fun (v, output) => .wrapped v output))
      split
      · exact (aside_check _).bind fun name => (aside_virtual _).bind fun _ => hitems
      · exact hitems
  have hunpack (results : Value) : Aside (unpackSingle results) := by
    unfold unpackSingle
    refine (aside_check _).bind fun count => ?_
    split
    · exact aside_check _
    · exact aside_pure _
  unfold deliver
  simp only [hl.config, RealConfig.full, if_true]
  cases outputs with
  | none => exact hmethod.bind hunpack
  | some outputs => exact hmethod.bind fun results => (hwrap results outputs).bind hunpack

/-! ## Calls that are ready -/

structure Ready where
  outputs : Option (List Value)
  arguments : List Value
  named : List (String × Value)
  name : String

def prepareCall (l : Layer) (arguments : List Value) (named : List (String × Value)) :
    RealM Ready := do
  let t ← approach l arguments named
  let filled ← check (fill l t)
  let name ← check (l.info.entry "name")
  return ⟨t.outputs, t.arguments, filled, name.text⟩

theorem aside_prepareCall (hl : l.Full) (arguments : List Value) (named : List (String × Value)) :
    Aside (prepareCall l arguments named) :=
  (aside_approach hl).bind fun _ => (aside_check _).bind fun _ =>
    (aside_check _).bind fun _ => aside_pure _

theorem approach_of_prepareCall {r : Ready} (h : ((prepareCall l arguments named).run s).1 = .ok r) :
    ∃ t, ((approach l arguments named).run s).1 = .ok t ∧ r.outputs = t.outputs ∧
      r.arguments = t.arguments := by
  obtain ⟨t, s₁, happroach, h⟩ := of_run_bind (Prod.ext h rfl)
  obtain ⟨filled, s₂, -, h⟩ := of_run_bind h
  obtain ⟨name, s₃, -, h⟩ := of_run_bind h
  obtain ⟨rfl, -⟩ := of_run_pure h
  exact ⟨t, by rw [happroach], rfl, rfl⟩

def Ready.handed (r : Ready) : List (String × Value) × Bool := (r.named, r.outputs.isSome)

theorem agree_prepareCall (hl : l.Full) (hplain : l.Plain) {arguments' : List Value}
    {named' : List (String × Value)} (harguments : arguments.map mask = arguments'.map mask)
    (hnamed : mapValues mask named = mapValues mask named') :
    Agree Eq (fun r r' => r.handed = r'.handed) (prepareCall l arguments named)
      (prepareCall l arguments' named') := by
  unfold prepareCall
  refine (agree_approach hl harguments hnamed).bind fun t t' halike => ?_
  rw [fill_plain hplain halike]
  refine (agree_check_self (fill l t')).bind fun filled filled' hfilled => ?_
  refine (agree_check_self (l.info.entry "name")).bind fun _ _ _ => ?_
  exact agree_pure (congrArg₂ Prod.mk hfilled halike.outputs.isSome_eq)

theorem of_prepareCall (hl : l.Full) {r : Ready} (h : ((prepareCall l arguments named).run s).1 = .ok r) :
    r.arguments = [] ∧ l.Stand r.outputs r.outputs := by
  obtain ⟨t, ht, houtputs, harguments⟩ := approach_of_prepareCall h
  have hself : Matching Eq (Setting.Alike l) _ _ := agree_approach hl (rfl : arguments.map mask = _)
    (rfl : mapValues mask named = _) s s
  rw [ht] at hself
  cases hself with
  | ok halike =>
    refine ⟨harguments.trans ?_, houtputs ▸ halike.outputs⟩
    have hrun : (approach l arguments named).run s = (.ok t, _) := Prod.ext ht rfl
    rw [approach_eq hl] at hrun
    obtain ⟨bound, s₁, -, hrun⟩ := of_run_bind hrun
    obtain ⟨outputs, s₂, -, hrun⟩ := of_run_bind hrun
    obtain ⟨rfl, -⟩ := of_run_pure hrun
    rfl

theorem run_cacheOf_shared (hl : l.Full) (hactive : s.active = true)
    (hworkflow : s.workflow = some ⟨.shared, cache, places⟩) :
    (cacheOf l).run s = (check (l.info.entry "name") >>= fun name =>
      pure (some (name.text, cache))).run s := by
  have hsame : { s with workflow := some ⟨.shared, cache, places⟩ } = s := by rw [← hworkflow]
  unfold cacheOf
  rw [run_bind, run_bind]
  cases l.info.entry "name" with
  | error e => rfl
  | ok name =>
    rw [show (check (Except.ok name)).run s = (.ok name, s) from rfl]
    dsimp only
    rw [run_bind_ok (run_get s), run_bind_ok (run_get s)]
    simp only [hactive, hworkflow, RealWorkflow.cacheFor]
    rw [run_bind_ok (run_modify _ s), hsame, hl.config]
    rfl

theorem run_cacheOf_none (hs : s.NoCache) :
    (cacheOf l).run s = (check (l.info.entry "name") >>= fun _ => pure none).run s := by
  unfold cacheOf
  rw [run_bind, run_bind]
  cases l.info.entry "name" with
  | error e => rfl
  | ok name =>
    rw [show (check (Except.ok name)).run s = (.ok name, s) from rfl]
    dsimp only
    rw [run_bind_ok (run_get s), run_bind_ok (run_get s)]
    cases hactive : s.active with
    | false => rfl
    | true =>
      cases hworkflow : s.workflow with
      | none => rfl
      | some w =>
        have hcache : w.cacheFor name.text = (none, w) := by
          rw [RealWorkflow.cacheFor, hs hactive w hworkflow]
        have hsame : { s with workflow := some w } = s := by rw [← hworkflow]
        simp only [hcache]
        rw [run_bind_ok (run_modify _ s), hsame]

theorem Aside.run_bind_congr {α β : Type} {x : RealM α} {f g : α → RealM β} (hx : Aside x)
    (h : ∀ a s', s'.active = s.active → s'.workflow = s.workflow →
      (f a).run s' = (g a).run s') :
    (x >>= f).run s = (x >>= g).run s := by
  obtain ⟨result, session, runs, hs⟩ := hx s
  have hrun := hs s.workflow
  rw [run_bind, run_bind, hrun]
  cases result with
  | error e => rfl
  | ok a => exact h a _ rfl rfl

theorem run_callLayer (cached : String → Option (String × Cache)) (hl : l.Full)
    (hcached : ∀ s' : RealState, s'.active = s.active → s'.workflow = s.workflow → (cacheOf l).run s' =
      (check (l.info.entry "name") >>= fun name => pure (cached name.text)).run s') :
    (callLayer l made arguments named).run s = (prepareCall l arguments named >>= fun r =>
      match cached r.name with
      | none => deliver l made r.outputs r.arguments r.named
      | some (name, cache) => recallFrom l made name cache r.outputs r.arguments r.named).run s := by
  rw [callLayer_eq hl]
  unfold prepareCall conclude
  simp only [bind_assoc, pure_bind]
  refine (aside_approach hl).run_bind_congr fun t s₁ ha₁ hw₁ => ?_
  refine (aside_check (fill l t)).run_bind_congr fun filled s₂ ha₂ hw₂ => ?_
  rw [run_bind, hcached s₂ (ha₂.trans ha₁) (hw₂.trans hw₁), run_bind, run_bind]
  cases l.info.entry "name" with
  | error e => rfl
  | ok name => rfl

theorem run_callLayer_none (hl : l.Full) (hs : s.NoCache) :
    (callLayer l made arguments named).run s = (prepareCall l arguments named >>= fun r =>
      deliver l made r.outputs r.arguments r.named).run s :=
  run_callLayer (fun _ => none) hl (fun _ ha hw => run_cacheOf_none fun ha' w hw' =>
    hs (ha.symm.trans ha') w (hw.symm.trans hw'))

theorem run_callLayer_shared (hl : l.Full) (hactive : s.active = true)
    (hworkflow : s.workflow = some ⟨.shared, cache, places⟩) :
    (callLayer l made arguments named).run s = (prepareCall l arguments named >>= fun r =>
      recallFrom l made r.name cache r.outputs r.arguments r.named).run s :=
  run_callLayer (fun name => some (name, cache)) hl (fun _ ha hw =>
    run_cacheOf_shared hl (ha.trans hactive) (hw.trans hworkflow))

/-- What a call with a cache comes to, by the call of a method that it gets ready and the answer that
it would have without the cache: its answer, and the cache after it. -/
inductive Recalled (ready : Except Fault Ready) (own : Except Fault Value) (cache : Cache) :
    Except Fault Value → Cache → Prop where
  | unready {e : Fault} (h : ready = .error e) (hown : own = .error e) :
    Recalled ready own cache (.error e) cache
  | unprompted {r : Ready} {e : Fault} (h : ready = .ok r)
      (hprompt : promptOf r.outputs = .error e) : Recalled ready own cache (.error e) cache
  | found {r : Ready} {prompt : String} {v : Value} (h : ready = .ok r)
      (hprompt : promptOf r.outputs = .ok prompt)
      (hfound : Value.lookup prompt cache = some v) (hv : v ≠ .null) :
    Recalled ready own cache (.ok v) cache
  | failed {r : Ready} {prompt : String} {e : Fault} (h : ready = .ok r)
      (hprompt : promptOf r.outputs = .ok prompt)
      (hmissed : (Value.lookup prompt cache).getD .null = .null) (hown : own = .error e) :
    Recalled ready own cache (.error e) cache
  | kept {r : Ready} {prompt : String} {v : Value} (h : ready = .ok r)
      (hprompt : promptOf r.outputs = .ok prompt)
      (hmissed : (Value.lookup prompt cache).getD .null = .null) (hown : own = .ok v) :
    Recalled ready own cache (.ok v) (Table.put prompt v cache)

theorem recalled_recallFrom (hl : l.Full) (hworkflow : s.workflow = some ⟨.shared, cache, places⟩)
    (made : Made) (r : Ready) :
    ∃ session runs cache',
      ((recallFrom l made r.name cache r.outputs r.arguments r.named).run s).2 =
        { s with session := session, runs := runs, workflow := some ⟨.shared, cache', places⟩ } ∧
      Recalled (.ok r) ((deliver l made r.outputs r.arguments r.named).run s.uncached).1 cache
        ((recallFrom l made r.name cache r.outputs r.arguments r.named).run s).1 cache' := by
  have hsame : s = { s with workflow := some ⟨.shared, cache, places⟩ } := by rw [← hworkflow]
  unfold recallFrom
  cases hprompt : promptOf r.outputs with
  | error e => exact ⟨s.session, s.runs, cache, hsame, .unprompted rfl hprompt⟩
  | ok prompt =>
    rw [run_bind_ok (show (check (.ok prompt)).run s = (.ok prompt, s) from rfl)]
    obtain ⟨result, session, runs, hdeliver⟩ := aside_deliver hl made r.outputs r.arguments r.named s
    have hrun : (deliver l made r.outputs r.arguments r.named).run s =
        (result, { s with session := session, runs := runs }) := hdeliver s.workflow
    have hown : ((deliver l made r.outputs r.arguments r.named).run s.uncached).1 = result :=
      congrArg Prod.fst (hdeliver _)
    split
    · rename_i hmissed
      cases result with
      | error e =>
        rw [run_bind_error hrun]
        exact ⟨session, runs, cache, by rw [← hworkflow], .failed rfl hprompt hmissed hown⟩
      | ok v =>
        rw [run_bind_ok hrun]
        refine ⟨session, runs, Table.put prompt v cache, ?_, .kept rfl hprompt hmissed hown⟩
        change { s with session := session, runs := runs, workflow := s.workflow.map _ } = _
        rw [hworkflow]
        rfl
    · rename_i found hnull
      cases hlookup : Value.lookup prompt cache with
      | none => exact absurd (by rw [hlookup]; rfl) hnull
      | some v =>
        rw [hlookup, Option.getD_some] at hnull
        exact ⟨s.session, s.runs, cache, hsame, .found rfl hprompt hlookup hnull⟩

theorem recalled_callLayer (hl : l.Full) (hactive : s.active = true)
    (hworkflow : s.workflow = some ⟨.shared, cache, places⟩) (made : Made) (arguments : List Value)
    (named : List (String × Value)) :
    ∃ session runs cache', ((callLayer l made arguments named).run s).2 =
        { s with session := session, runs := runs, workflow := some ⟨.shared, cache', places⟩ } ∧
      Recalled ((prepareCall l arguments named).run s).1
        ((callLayer l made arguments named).run s.uncached).1 cache
        ((callLayer l made arguments named).run s).1 cache' := by
  rw [run_callLayer_shared hl hactive hworkflow, run_callLayer_none hl s.noCache_uncached]
  obtain ⟨result, session, runs, hprepare⟩ := aside_prepareCall hl arguments named s
  have hrun : (prepareCall l arguments named).run s =
      (result, { s with session := session, runs := runs }) := hprepare s.workflow
  have hrun' : (prepareCall l arguments named).run s.uncached =
      (result, { s with session := session, runs := runs }.uncached) := hprepare _
  cases result with
  | error e =>
    rw [run_bind_error hrun, run_bind_error hrun', hrun]
    exact ⟨session, runs, cache, by rw [← hworkflow], .unready rfl rfl⟩
  | ok r =>
    rw [run_bind_ok hrun, run_bind_ok hrun', hrun]
    exact recalled_recallFrom hl (s := { s with session := session, runs := runs }) hworkflow made r

end RealM

end Flowscript
