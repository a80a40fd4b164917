import Flowscript.Proofs.Real.Results

/-!
# What a call of a layer comes to

A call in a layer is tracked, gets ready and is delivered. Tracking calls the virtual node with what
stands for the arguments, and succeeds exactly if every type of an output makes outputs. Getting ready
changes the session only, and delivering calls the method once.
-/

namespace Flowscript

open List Option

variable {displayNames : List (String × Value)}

open Value (mapValues)

def NodeClass.method? (c : NodeClass) : Option NodeMethod :=
  ((c.attribute? "FUNCTION").bind Value.text?).bind fun function => Table.find? function c.methods

def NodeClass.returnTypes (c : NodeClass) : Except Fault (List Value) :=
  match c.attribute? "RETURN_TYPES" with
  | some types => types.iterate
  | none => .error .missingField

/-- What the method of the class returns is a tuple with an item for each output, and there are
some. -/
def NodeClass.ReturnsTuples (c : NodeClass) : Prop :=
  ∃ types, c.returnTypes = .ok types ∧ types ≠ [] ∧ ∀ m, c.method? = some m →
    ∀ named result, m.give [] named = .ok result →
      ∃ items, result = .tuple items ∧ items.length = types.length

namespace RealM

variable {l : Layer} {t t' : RealState}

theorem run_virtual {α : Type} {x : SessionM Unit α} {result : Except Fault α} {session : Session Unit}
    (h : x.run t.session = (result, session)) :
    (virtual x).run t = (result, { t with session := session }) := by
  rw [virtual, ExceptT.run, ExceptT.mk, h]

theorem run_runMethod (c : NodeClass) (arguments : List Value) (named : List (String × Value)) :
    (c.method? = none ∧ ∃ e, (runMethod (.object c) arguments named).run t = (.error e, t)) ∨
      ∃ m, c.method? = some m ∧ (runMethod (.object c) arguments named).run t =
        (m.give arguments named, { t with runs := t.runs ++ [⟨m.owner, arguments, named⟩] }) := by
  unfold runMethod NodeClass.method?
  dsimp only
  cases c.attribute? "FUNCTION" with
  | none => exact .inl ⟨rfl, .missingField, rfl⟩
  | some function =>
    dsimp only [bind_some]
    cases function.text? with
    | none => exact .inl ⟨rfl, .wrongKind, rfl⟩
    | some text =>
      dsimp only [bind_some]
      cases Table.find? text c.methods with
      | none => exact .inl ⟨rfl, .missingField, rfl⟩
      | some m => exact .inr ⟨m, rfl, rfl⟩

theorem run_wrapResults {items outputs : List Value} (h : items.length = outputs.length) :
    (do
      let results ← wrapResults l (.tuple items) outputs
      unpackSingle results).run t = (.ok (packed items outputs), t) := by
  have hwrap : (wrapResults l (.tuple items) outputs).run t =
      (.ok (.list ((items.zip outputs).map fun piece => .wrapped piece.1 piece.2)), t) := by
    unfold wrapResults
    have hcount : resultCount (.tuple items) = .ok (some items.length) := rfl
    rw [hcount, run_bind_ok (show (check (.ok (some items.length))).run t = _ from rfl)]
    simp only [h, bne_self_eq_false, Bool.false_eq_true, if_false]
    rfl
  rw [run_bind_ok hwrap]
  unfold packed unpackSingle
  cases items.zip outputs with
  | nil => rfl
  | cons piece pieces =>
    cases pieces with
    | nil => rfl
    | cons piece' pieces => rfl

theorem run_deliver (hl : l.Full) {c : NodeClass} {outputs : List Value} (named : List (String × Value))
    (htuples : ∀ m, c.method? = some m → ∀ result, m.give [] named = .ok result →
      ∃ items, result = .tuple items ∧ items.length = outputs.length) :
    (c.method? = none ∧ ∃ e, (deliver l (.object c) (some outputs) [] named).run t = (.error e, t)) ∨
      ∃ m, c.method? = some m ∧ (deliver l (.object c) (some outputs) [] named).run t =
        ((m.give [] named).map fun result => packed result.parts outputs,
          { t with runs := t.runs ++ [⟨m.owner, [], named⟩] }) := by
  unfold deliver
  simp only [hl.config, RealConfig.full, if_true]
  rcases run_runMethod (t := t) c [] named with ⟨hnone, e, herror⟩ | ⟨m, hm, hrun⟩
  · exact .inl ⟨hnone, e, run_bind_error herror⟩
  · refine .inr ⟨m, hm, ?_⟩
    cases hgive : m.give [] named with
    | error e =>
      rw [hgive] at hrun
      rw [run_bind_error hrun]
      rfl
    | ok result =>
      rw [hgive] at hrun
      obtain ⟨items, rfl, hlength⟩ := htuples m hm result hgive
      rw [run_bind_ok hrun, run_wrapResults hlength]
      rfl

theorem of_run_prepareCall (hl : l.Full) {arguments : List Value} {named : List (String × Value)}
    {r : Ready} (h : (prepareCall l arguments named).run t = (.ok r, t')) :
    ∃ bound surplus session, NodeInfo.bind l.info arguments = .ok (bound, surplus) ∧
      session.fresh = t.session.fresh ∧
      (track l (Value.merge l.defaults (Value.merge bound named))).run { t with session := session } =
        (.ok r.outputs, t') ∧
      r.arguments = [] ∧
      fill l ⟨r.outputs, [], Value.merge bound named,
        mapValues unwrap (Value.merge l.defaults (Value.merge bound named))⟩ = .ok r.named := by
  unfold prepareCall at h
  rw [approach_eq hl] at h
  obtain ⟨setting, t₁, happroach, h⟩ := of_run_bind h
  obtain ⟨bound, t₂, hbound, happroach⟩ := of_run_bind happroach
  obtain ⟨outputs, t₃, htrack, happroach⟩ := of_run_bind happroach
  cases happroach
  obtain ⟨filled, t₄, hfill, h⟩ := of_run_bind h
  obtain ⟨name, t₅, hname, h⟩ := of_run_bind h
  cases h
  obtain ⟨session, hsession, rfl⟩ := of_run_virtual hbound
  unfold SessionM.bindPositional at hsession
  obtain ⟨⟨bound', surplus⟩, s₁, hbind, hsession⟩ := of_run_bind hsession
  obtain ⟨text, s₂, htext, hsession⟩ := of_run_bind hsession
  obtain ⟨_, s₃, hprint, hsession⟩ := of_run_bind hsession
  cases hsession
  cases hprint
  have hs₁ : t.session = s₁ := congrArg Prod.snd hbind
  have hs₂ : s₁ = s₂ := congrArg Prod.snd htext
  have hfilled : fill l _ = .ok filled := congrArg Prod.fst hfill
  have ht₄ : t₁ = t₄ := congrArg Prod.snd hfill
  have ht' : t₄ = t' := congrArg Prod.snd hname
  refine ⟨bound, surplus, _, SessionM.of_run_check hbind, ?_, (ht₄.trans ht') ▸ htrack, rfl, hfilled⟩
  rw [hs₁, hs₂]

end RealM

namespace SessionM

variable {κ : Type} {n : VirtualNode}

theorem rising_print (text : String) : Rising Session.fresh (print text : SessionM κ Unit) :=
  .of_eq fun _ => rfl

theorem rising_bindPositional (info : Value) (arguments : List Value) :
    Rising Session.fresh (bindPositional info arguments : SessionM κ (List (String × Value))) :=
  Rising.stepwise.bindPositional rising_print info arguments

theorem rising_callNode (n : VirtualNode) (arguments : List Value) (named : List (String × Value)) :
    Rising Session.fresh (callNode n arguments named : SessionM κ Value) :=
  Rising.stepwise.callNode rising_print (fun s => Nat.le_succ s.fresh) (fun _ _ => .of_eq fun _ => rfl)
    arguments named

end SessionM

theorem dropNulls_of_given {named : List (String × Value)}
    (h : ∀ entry ∈ named, entry.2 ≠ .null ∧ isEmptyOutput entry.2 = false) :
    dropNulls named = .ok named := by
  rw [dropNulls_eq fun entry hentry => (h entry hentry).2]
  refine congrArg Except.ok ((filterMap_congr fun entry hentry => ?_).trans filterMap_some)
  rw [Value.given_of_ne (h entry hentry).1]
  rfl

def NodeEntry.Makes (entry : NodeEntry) : Prop :=
  ∀ type ∈ entry.outputTypes, ∃ typeName, VirtualNode.outputName type = .ok typeName

instance (entry : NodeEntry) : Decidable entry.Makes :=
  decidable_of_iff (∀ type ∈ entry.outputTypes, (VirtualNode.outputName type).isOk = true) <|
    forall₂_congr fun type _ => by cases VirtualNode.outputName type <;> simp [Except.isOk, Except.toBool]

namespace RealM

variable {l : Layer}

/-- A step that changes the session only, and takes no identity back. -/
def InSession {α : Type} (x : RealM α) : Prop :=
  ∀ t, ∃ result session, x.run t = (result, { t with session := session }) ∧
    t.session.fresh ≤ session.fresh

section InSession

variable {α β : Type}

theorem inSession_pure (a : α) : InSession (pure a : RealM α) :=
  fun t => ⟨.ok a, t.session, rfl, Nat.le_refl _⟩

theorem inSession_check (result : Except Fault α) : InSession (check result) :=
  fun t => ⟨result, t.session, rfl, Nat.le_refl _⟩

theorem inSession_virtual {x : SessionM Unit α} (hx : Rising Session.fresh x) : InSession (virtual x) :=
  fun t => ⟨(x.run t.session).1, (x.run t.session).2, run_virtual rfl, hx t.session⟩

theorem InSession.bind {x : RealM α} {f : α → RealM β} (hx : InSession x) (hf : ∀ a, InSession (f a)) :
    InSession (x >>= f) := by
  intro t
  obtain ⟨result, session, hrun, hle⟩ := hx t
  cases result with
  | error e => exact ⟨.error e, session, run_bind_error hrun, hle⟩
  | ok a =>
    obtain ⟨result', session', hrun', hle'⟩ := hf a { t with session := session }
    exact ⟨result', session', (run_bind_ok hrun).trans hrun', Nat.le_trans hle hle'⟩

theorem InSession.tryCatch {x : RealM α} {handle : Fault → RealM α} (hx : InSession x)
    (hhandle : ∀ e, InSession (handle e)) : InSession (tryCatch x handle) := by
  intro t
  obtain ⟨result, session, hrun, hle⟩ := hx t
  rw [run_tryCatch, hrun]
  cases result with
  | ok a => exact ⟨.ok a, session, rfl, hle⟩
  | error e =>
    obtain ⟨result', session', hrun', hle'⟩ := hhandle e { t with session := session }
    exact ⟨result', session', hrun', Nat.le_trans hle hle'⟩

end InSession

theorem inSession_prepareCall (hl : l.Full) (arguments : List Value) (named : List (String × Value)) :
    InSession (prepareCall l arguments named) := by
  have htrack (named : List (String × Value)) : InSession (track l named) := by
    unfold track
    refine InSession.tryCatch ?_ fun e => ?_
    · refine (inSession_virtual (SessionM.rising_callNode _ _ _)).bind fun v => ?_
      split
      · exact inSession_pure _
      · exact inSession_pure _
    · exact (inSession_check _).bind fun _ =>
        (inSession_virtual (SessionM.rising_print _)).bind fun _ => inSession_pure _
  unfold prepareCall
  rw [approach_eq hl]
  refine InSession.bind ?_ fun _ => (inSession_check _).bind fun _ => (inSession_check _).bind fun _ =>
    inSession_pure _
  exact (inSession_virtual (SessionM.rising_bindPositional _ _)).bind fun _ =>
    (htrack _).bind fun _ => inSession_pure _

theorem run_track {entry : NodeEntry} {name : String} {fields kwds : List (String × Value)}
    (hinfo : entry.info = .dict fields) (hname : Value.lookup "name" fields = some (.str name))
    (hmakes : entry.Makes) (hbind : NodeInfo.bind entry.info [] = .ok ([], []))
    (hnodup : (kwds.map Prod.fst).Nodup)
    (hkwds : ∀ e ∈ kwds, standIn e.2 ≠ .null ∧ isEmptyOutput (standIn e.2) = false) (t : RealState) :
    ∃ session outputs, (track (layerFor .full entry) kwds).run t =
        (.ok (some outputs), { t with session := session }) ∧ t.session.fresh < session.fresh ∧
      List.Forall₂ ((layerFor .full entry).node.IsOutput t.session.fresh (.str name)
        (Value.merge entry.defaults (mapValues standIn kwds))) (layerFor .full entry).node.slots outputs := by
  have hintact : (layerFor .full entry).node.Intact :=
    ⟨fun name _ => VirtualNode.shadow?_of_attached rfl name, hmakes⟩
  have hkept : dropNulls (Value.merge [] (mapValues standIn kwds)) = .ok (mapValues standIn kwds) := by
    rw [Value.merge_eq_append (by rwa [nil_append, Value.map_fst_mapValues]), nil_append]
    refine dropNulls_of_given fun e he => ?_
    obtain ⟨e', he', rfl⟩ := mem_map.mp he
    exact hkwds e' he'
  obtain ⟨v, session, outputs, hrun, -, hfresh, hv, houtputs⟩ :=
    SessionM.run_callNode_named hintact hinfo hname hbind hkept t.session
  refine ⟨session, outputs, ?_, hfresh, houtputs⟩
  rcases hv with rfl | ⟨hpacks, -⟩
  · have hvirtual : (virtual (SessionM.callNode (layerFor .full entry).node []
        (kwds.map fun e => (e.1, standIn e.2)))).run t =
          (.ok (.list outputs), { t with session := session }) := run_virtual hrun
    unfold track
    dsimp only
    rw [run_tryCatch, run_bind_ok hvirtual]
    rfl
  · cases hpacks

end RealM

theorem NodeClass.of_info {c : NodeClass} {name : String} {info : Value}
    (h : c.info name displayNames = .ok info) :
    ∃ fields, info = .dict fields ∧ Value.lookup "name" fields = some (.str name) ∧
      Hinting.declaredOutputs info = c.returnTypes := by
  unfold NodeClass.info at h
  unfold NodeClass.returnTypes
  obtain ⟨input, -, h⟩ := ok_of_bind h
  cases hreturns : c.attribute? "RETURN_TYPES" with
  | none =>
    rw [hreturns] at h
    cases h
  | some output =>
    rw [hreturns] at h
    dsimp only at h
    rw [ok_bind] at h
    obtain ⟨isList, -, h⟩ := ok_of_bind h
    cases h
    exact ⟨_, rfl, rfl, rfl⟩

theorem mem_nodesInfoOf {classes : List (String × NodeClass)} {infos : List Value}
    (h : SessionM.valuesOf (nodesInfoOf classes displayNames) = .ok infos) {info : Value}
    (hinfo : info ∈ infos) :
    ∃ name c, (name, c) ∈ classes ∧ c.info name displayNames = .ok info := by
  cases h
  obtain ⟨⟨name, info'⟩, hmem, rfl⟩ := mem_map.mp hinfo
  obtain ⟨⟨name', c⟩, hc, hsome⟩ := mem_filterMap.mp hmem
  refine ⟨name', c, hc, ?_⟩
  dsimp only at hsome
  split at hsome
  · next info'' h =>
    cases hsome
    exact h
  · cases hsome

theorem RealState.Loaded.of_site {classes : List (String × NodeClass)} {infos : List Value}
    {registry : Registry} {s : RealState} (h : s.Loaded classes infos registry)
    (hinfos : SessionM.valuesOf (nodesInfoOf classes displayNames) = .ok infos)
    (hnodup : (classes.map Prod.fst).Nodup) {name : String} {l : Layer} {inner : NodeClass}
    (hsite : s.site name = .ok (l, inner)) :
    ∃ entry, (name, entry) ∈ registry.nodes ∧ l = RealM.layerFor .full entry ∧
      (name, inner) ∈ classes ∧ inner.info name displayNames = .ok entry.info := by
  unfold site at hsite
  cases hn : Table.find? name s.nodes with
  | none => rw [hn] at hsite; cases hsite
  | some n =>
    obtain ⟨entry, hentry, rfl⟩ := h.nodes name n hn
    rw [hn, h.classes] at hsite
    simp only [RealM.wrapped] at hsite
    cases hinner : Table.find? name classes with
    | none => rw [hinner] at hsite; cases hsite
    | some c =>
      rw [hinner] at hsite
      cases hsite
      have hfrom := h.registered (name, entry) hentry
      obtain ⟨name', c, hc, hinfo⟩ := mem_nodesInfoOf hinfos hfrom.mem
      obtain ⟨fields, hdict, hname, -⟩ := NodeClass.of_info hinfo
      -- the description is that of the class with this name
      have hsame : name' = name := by
        have hnamed := hfrom.named
        rw [Registering.named, hdict, Value.entry, Value.item_dict_str hname] at hnamed
        exact Except.ok.inj hnamed
      subst hsame
      rw [Table.find?_of_mem hnodup hc] at hinner
      cases hinner
      exact ⟨entry, hentry, rfl, hc, hinfo⟩

end Flowscript
