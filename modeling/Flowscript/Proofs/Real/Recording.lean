import Flowscript.Proofs.Real.Delivery

/-!
# Recorded calls

A call of a loaded node is recorded as a call of the virtual node with the same arguments by name: a
plain value as it is, and a result of an earlier call as the output that stands for it. Its own results
are wrapped with the outputs of that record, each with the slot at which the method returned it. No call
is recorded of a node one of whose outputs is a choice, as the type of such an output makes no outputs.
-/

namespace Flowscript

open List

open Value (mapValues)

/-- A call that can be recorded: the values among its arguments and the defaults of the node are
plain, no hidden input is declared twice, every type of its outputs makes outputs, and its method
returns a tuple with an item for each output. -/
structure RealCall.Traceable (classes : List (String × NodeClass)) (registry : Registry)
    (c : RealCall) : Prop where
  plain : ∀ v, .value v ∈ c.arguments ++ c.named.map Prod.snd → v.Plain
  defaults : ∀ entry, (c.node, entry) ∈ registry.nodes → ∀ d ∈ entry.defaults, d.2.Plain
  hidden : ∀ entry, (c.node, entry) ∈ registry.nodes →
    ((RealM.hiddenOf entry.info).map Prod.fst).Nodup
  makes : ∀ entry, (c.node, entry) ∈ registry.nodes → entry.Makes
  returns : ∀ inner, (c.node, inner) ∈ classes → inner.ReturnsTuples

/-- A call does not come to a method: it does not get ready, or the class has none. -/
def RealCall.Unmade (classes : List (String × NodeClass)) (answers : List Answer) (t : RealState)
    (c : RealCall) : Prop :=
  (∃ e, c.ready answers t = .error e) ∨ ∃ inner, (c.node, inner) ∈ classes ∧ inner.method? = none

structure CallRecord where
  entry : NodeEntry
  given : List (String × Value)
  named : List (String × Value)
  filled : List (String × Value)
  method : NodeMethod
  call : Nat
  inputs : List (String × Value)
  outputs : List Value
  session : Session Unit

namespace CallRecord

/-- The hidden input is filled in if it is of a kind. -/
def Asks (d : CallRecord) (kind key : String) : Prop :=
  Value.hasKey key d.given = false ∧
    ∃ v, (key, v) ∈ RealM.hiddenOf d.entry.info ∧ (v == .str kind) = true

/-- What a call runs and answers is what is recorded of it. -/
structure Of (registry : Registry) (answers : List Answer) (t : RealState) (c : RealCall)
    (d : CallRecord) : Prop where
  registered : (c.node, d.entry) ∈ registry.nodes
  given : ∃ arguments named bound surplus, c.resolve answers = .ok (arguments, named) ∧
    NodeInfo.bind d.entry.info arguments = .ok (bound, surplus) ∧ d.given = Value.merge bound named
  named : d.named = Value.merge d.entry.defaults d.given
  /-- An argument is plain or a result of an earlier call. -/
  sources : ∀ e ∈ d.named, e.2.Plain ∨ ResultOf answers e.2
  inputs : ∀ key, Value.lookup key d.inputs = (Value.lookup key d.named).map RealM.standIn
  nodup : (d.inputs.map Prod.fst).Nodup
  outputs : List.Forall₂ (fun i o => ∃ object typeName,
      o = .output object typeName d.entry.info d.call (.str c.node) d.inputs (some i))
    (List.range d.outputs.length) d.outputs
  nonempty : d.outputs ≠ []
  /-- No earlier result is wrapped with outputs of this call. -/
  unused : ∀ v, .ok v ∈ answers → ¬v.PackedBy d.call
  /-- The method is called once, with the arguments. -/
  ran : ((c.make answers).run t).2 =
    { t with session := d.session, runs := t.runs ++ [⟨d.method.owner, [], d.filled⟩] }
  fresh : t.session.fresh ≤ d.call ∧ d.call < d.session.fresh
  answer : c.answer answers t =
    (d.method.give [] d.filled).map fun result => RealM.packed result.parts d.outputs
  tuple : ∀ result, d.method.give [] d.filled = .ok result →
    ∃ items, result = .tuple items ∧ items.length = d.outputs.length
  handed : ∀ key, ¬d.Asks "PROMPT" key → ¬d.Asks "UNIQUE_ID" key →
    Value.lookup key d.filled = (Value.lookup key d.named).map RealM.unwrap
  /-- The id that is filled in is the key of the call in the prompt that is filled in. -/
  own : ∀ key, d.Asks "UNIQUE_ID" key → ∃ (p : Prompt) (id : String) (sent : List (String × Value)),
    Value.lookup key d.filled = some (.str id) ∧ p.ids.id? d.call = some id ∧
    Value.lookup id p.entries = some (.dict [("inputs", .dict sent), ("class_type", .str c.node)]) ∧
    sent.map Prod.fst = d.inputs.map Prod.fst ∧
    ∀ key', d.Asks "PROMPT" key' → Value.lookup key' d.filled = some (.dict p.entries)

end CallRecord

namespace RealM

/-- An argument that no hidden input asks for is handed on without what it was wrapped with. -/
theorem handed_of_injectInputs {d : CallRecord} {output : Value} {rest : List Value}
    (hnodup : ((hiddenOf d.entry.info).map Prod.fst).Nodup)
    (h : injectInputs (layerFor .full d.entry) (output :: rest) d.given (mapValues unwrap d.named) =
      .ok d.filled) {key : String} (hprompt : ¬d.Asks "PROMPT" key) (hid : ¬d.Asks "UNIQUE_ID" key) :
    Value.lookup key d.filled = (Value.lookup key d.named).map unwrap := by
  obtain ⟨hothers, hhidden⟩ := of_injectInputs (l := layerFor .full d.entry) hnodup h
  rw [← Value.lookup_mapValues]
  by_cases hmem : key ∈ (hiddenOf d.entry.info).map Prod.fst
  · obtain ⟨⟨k, kind⟩, hentry, rfl⟩ := mem_map.mp hmem
    have hinjected := hhidden _ hentry
    dsimp only at hinjected hprompt hid ⊢
    generalize Value.lookup k d.filled = after at hinjected
    cases hinjected with
    | kept _ => rfl
    | prompt hgiven hkind _ => exact absurd ⟨hgiven, kind, hentry, hkind⟩ hprompt
    | uniqueId hgiven hkind _ => exact absurd ⟨hgiven, kind, hentry, hkind⟩ hid
  · exact hothers key hmem

theorem asked_of_injectInputs {d : CallRecord} {output : Value} {rest : List Value}
    (hnodup : ((hiddenOf d.entry.info).map Prod.fst).Nodup)
    (h : injectInputs (layerFor .full d.entry) (output :: rest) d.given (mapValues unwrap d.named) =
      .ok d.filled) (key : String) :
    (d.Asks "PROMPT" key → ∃ p, Prompt.ofOutput output = .ok p ∧
        Value.lookup key d.filled = some p.toValue) ∧
      (d.Asks "UNIQUE_ID" key → ∃ p, Prompt.ofOutput output = .ok p ∧
        Value.lookup key d.filled = some (ownId p output)) := by
  obtain ⟨-, hhidden⟩ := of_injectInputs (l := layerFor .full d.entry) hnodup h
  have hapart {kind : Value} (hp : (kind == .str "PROMPT") = true) (hu : (kind == .str "UNIQUE_ID") = true) :
      False := absurd (Value.eq_of_same_str kind hp hu) (by decide)
  constructor
  · rintro ⟨hgiven, kind, hentry, hkind⟩
    have hinjected := hhidden _ hentry
    dsimp only at hinjected
    generalize Value.lookup key d.filled = after at hinjected
    cases hinjected with
    | kept hkept => simp [hgiven, hkind] at hkept
    | prompt _ _ hp => exact ⟨_, hp, rfl⟩
    | uniqueId _ hkind' _ => exact (hapart hkind hkind').elim
  · rintro ⟨hgiven, kind, hentry, hkind⟩
    have hinjected := hhidden _ hentry
    dsimp only at hinjected
    generalize Value.lookup key d.filled = after at hinjected
    cases hinjected with
    | kept hkept => simp [hgiven, hkind] at hkept
    | prompt _ hkind' _ => exact (hapart hkind' hkind).elim
    | uniqueId _ _ hp => exact ⟨_, hp, rfl⟩

end RealM

theorem RealM.outputs_of_slots {entry : NodeEntry} {call : Nat} {type : Value}
    {inputs : List (String × Value)} {types outputs : List Value} (htypes : types ≠ [])
    (hlength : types.length = entry.outputTypes.length)
    (h : List.Forall₂ ((layerFor .full entry).node.IsOutput call type inputs)
      (layerFor .full entry).node.slots outputs) :
    types.length = outputs.length ∧ List.Forall₂ (fun i o => ∃ object typeName,
        o = .output object typeName entry.info call type inputs (some i))
      (List.range outputs.length) outputs := by
  have hsome : entry.outputTypes ≠ [] := by
    intro hnil
    rw [hnil] at hlength
    exact htypes (length_eq_zero_iff.mp hlength)
  have hslots : (layerFor .full entry).node.slots = (List.range types.length).map some := by
    rw [hlength]
    exact if_neg hsome
  have houtputs : types.length = outputs.length := by
    rw [← h.length_eq, hslots, length_map, length_range]
  refine ⟨houtputs, ?_⟩
  rw [hslots, houtputs, List.forall₂_map_left_iff] at h
  exact h

theorem RealM.injected_of_fill {d : CallRecord} {type : Value}
    (hnodup : ((hiddenOf d.entry.info).map Prod.fst).Nodup) (hsome : d.outputs ≠ [])
    (houtputs : List.Forall₂ (fun i o => ∃ object typeName,
        o = .output object typeName d.entry.info d.call type d.inputs (some i))
      (List.range d.outputs.length) d.outputs)
    (h : fill (layerFor .full d.entry) ⟨some d.outputs, [], d.given, mapValues unwrap d.named⟩ =
      .ok d.filled) :
    (∀ key, ¬d.Asks "PROMPT" key → ¬d.Asks "UNIQUE_ID" key →
        Value.lookup key d.filled = (Value.lookup key d.named).map unwrap) ∧
      ∀ key, d.Asks "UNIQUE_ID" key → ∃ (p : Prompt) (id : String) (sent : List (String × Value)),
        Value.lookup key d.filled = some (.str id) ∧ p.ids.id? d.call = some id ∧
        Value.lookup id p.entries = some (.dict [("inputs", .dict sent), ("class_type", type)]) ∧
        sent.map Prod.fst = d.inputs.map Prod.fst ∧
        ∀ key', d.Asks "PROMPT" key' → Value.lookup key' d.filled = some (.dict p.entries) := by
  cases hd : d.outputs with
  | nil => exact absurd hd hsome
  | cons output rest =>
    rw [hd] at houtputs h
    obtain ⟨-, hfirst⟩ := List.forall₂_iff_get.mp houtputs
    obtain ⟨object, typeName, houtput⟩ := hfirst 0 (by simp) (by simp)
    simp only [get_eq_getElem, getElem_cons_zero] at houtput
    have hasked := asked_of_injectInputs hnodup h
    refine ⟨fun key hprompt hid => handed_of_injectInputs hnodup h hprompt hid, fun key hid => ?_⟩
    obtain ⟨p, hp, hkey⟩ := (hasked key).2 hid
    rw [houtput] at hp
    obtain ⟨id, sent, hown, hentry, hsent⟩ := Prompt.own_entry hp
    refine ⟨p, id, sent, ?_, hown, hentry, hsent, fun key' hprompt => ?_⟩
    · rw [hkey, houtput, ownId, hown]
    · obtain ⟨p', hp', hkey'⟩ := (hasked key').1 hprompt
      rw [houtput, hp] at hp'
      cases hp'
      exact hkey'

theorem RealM.standIn_given {answers : List Answer} {v : Value} (h : v.Plain ∨ ResultOf answers v) :
    standIn v ≠ .null ∧ isEmptyOutput (standIn v) = false := by
  rcases h with hplain | ⟨_, _, _, _, inner, _, _, _, _, ⟨_, _, _, _, _, rfl⟩, rfl⟩
  · have hself : standIn v = v := by
      cases v with
      | wrapped inner o => exact absurd rfl (hplain.bare inner o)
      | _ => rfl
    rw [hself]
    exact ⟨hplain.given, hplain.full⟩
  · exact ⟨Value.noConfusion, rfl⟩

namespace RealCall

variable {classes : List (String × NodeClass)} {registry : Registry} {answers : List Answer}
  {c : RealCall}

theorem Traceable.sources (hc : c.Traceable classes registry) {limit : Nat}
    (hanswers : Packs limit answers) {entry : NodeEntry} (hentry : (c.node, entry) ∈ registry.nodes)
    {arguments surplus : List Value} {named bound : List (String × Value)}
    (hresolve : c.resolve answers = .ok (arguments, named))
    (hbind : NodeInfo.bind entry.info arguments = .ok (bound, surplus)) :
    ∀ e ∈ Value.merge entry.defaults (Value.merge bound named), e.2.Plain ∨ ResultOf answers e.2 := by
  obtain ⟨arguments', harguments, hresolve⟩ := ok_of_bind hresolve
  obtain ⟨named', hnamed, hresolve⟩ := ok_of_bind hresolve
  cases hresolve
  have hpicked {a : CallArgument} (ha : a ∈ c.arguments ++ c.named.map Prod.snd) {w : Value}
      (hw : a.pick answers = .ok w) : w.Plain ∨ ResultOf answers w := by
    rcases CallArgument.of_pick hanswers hw with rfl | hresult
    · exact .inl (hc.plain w ha)
    · exact .inr hresult
  intro e he
  rcases Value.mem_merge he with hdefault | he
  · exact .inl (hc.defaults entry hentry e hdefault)
  rcases Value.mem_merge he with hbound | hnamed'
  · rcases NodeInfo.mem_bindGroups hbind e hbound with hnone | hargument
    · cases hnone
    · obtain ⟨a, ha, hpick⟩ := exists_of_mem_mapM harguments hargument
      exact hpicked (mem_append_left _ ha) hpick
  · obtain ⟨⟨key, a⟩, ha, hpick⟩ := exists_of_mem_mapM hnamed hnamed'
    obtain ⟨w, hw, hpick⟩ := ok_of_bind hpick
    cases hpick
    exact hpicked (mem_append_right _ (mem_map_of_mem (f := Prod.snd) ha)) hw

theorem resolve_of_aim {t : RealState} {aim : Aim} (h : c.aim answers t = .ok aim) :
    c.resolve answers = .ok (aim.arguments, aim.named) := by
  obtain ⟨p, hp, h⟩ := ok_of_bind h
  obtain ⟨site, -, h⟩ := ok_of_bind h
  cases h
  exact hp

variable {displayNames : List (String × Value)} {infos : List Value} {s t : RealState}
  (hs : s.Loaded classes infos registry)
  (hinfos : SessionM.valuesOf (nodesInfoOf classes displayNames) = .ok infos)
  (hclasses : (classes.map Prod.fst).Nodup) (ht : s.Plainly t)
  (hanswers : Packs t.session.fresh answers) (hc : c.Traceable classes registry)
include hs hinfos hclasses ht hanswers hc

theorem recorded :
    (∃ e session, (c.make answers).run t = (.error e, { t with session := session }) ∧
        t.session.fresh ≤ session.fresh ∧ c.Unmade classes answers t) ∨
      ∃ d : CallRecord, d.Of registry answers t c := by
  have hmake := run_make (ht.wraps hs.wraps) answers c
  cases haim : c.aim answers t with
  | error e =>
    rw [haim] at hmake
    exact .inl ⟨e, t.session, hmake, Nat.le_refl _, .inl ⟨e, by rw [ready, haim]; rfl⟩⟩
  | ok aim =>
  obtain ⟨l, inner, arguments, named⟩ := aim
  obtain ⟨entry, hentry, rfl, hinner, hinfo⟩ :=
    hs.of_site hinfos hclasses (ht.site_eq c.node ▸ site_of_aim haim)
  have hl : (RealM.layerFor .full entry).Full := ⟨rfl, rfl, rfl⟩
  rw [haim] at hmake
  dsimp only at hmake
  rw [RealM.run_callLayer_none hl ht.noCache] at hmake
  obtain ⟨ready, session, hready, hle⟩ := RealM.inSession_prepareCall hl arguments named t
  cases ready with
  | error e =>
    rw [run_bind_error hready] at hmake
    exact .inl ⟨e, session, hmake, hle, .inl ⟨e, by rw [ready, haim, ok_bind, hready]⟩⟩
  | ok r =>
  rw [run_bind_ok hready] at hmake
  obtain ⟨bound, surplus, session₀, hbind, hfresh₀, htrack, harguments, hfill⟩ :=
    RealM.of_run_prepareCall hl hready
  -- the virtual node is called with the same arguments
  have hfrom := hs.registered (c.node, entry) hentry
  have hsources := hc.sources hanswers hentry (resolve_of_aim haim) hbind
  have hnodup := Value.nodup_keys_merge (Value.merge bound named) hfrom.nodup
  obtain ⟨fields, hdict, hname, hdeclared⟩ := NodeClass.of_info hinfo
  obtain ⟨session₁, outputs, htracked, hfresh₁, houtputs⟩ := RealM.run_track hdict hname
    (hc.makes entry hentry) (NodeInfo.bindGroups_nil hbind []) hnodup
    (fun e he => RealM.standIn_given (hsources e he)) { t with session := session₀ }
  have hsame := htracked.symm.trans htrack
  obtain ⟨houtputs', hsession⟩ := Prod.mk.inj hsame
  have hr : r.outputs = some outputs := (Except.ok.inj houtputs').symm
  have hsession₁ : session₁ = session := congrArg RealState.session hsession
  rw [show ({ t with session := session₀ } : RealState).session.fresh = t.session.fresh from hfresh₀]
    at hfresh₁ houtputs
  -- there is an output for each declared type
  obtain ⟨types, htypes, hsome, htuples⟩ := hc.returns inner hinner
  obtain ⟨types', htypes', hstands⟩ := hfrom.outputs
  obtain rfl : types' = types := Except.ok.inj (htypes'.symm.trans (hdeclared.trans htypes))
  obtain ⟨hlength, hslots⟩ := RealM.outputs_of_slots hsome hstands.length_eq houtputs
  rw [hr] at hfill hmake
  rw [harguments] at hmake
  rcases RealM.run_deliver (t := { t with session := session }) hl r.named
    (fun m hm result hgive => hlength ▸ htuples m hm r.named result hgive)
    with ⟨hnone, e, herror⟩ | ⟨m, hm, hdeliver⟩
  · exact .inl ⟨e, session, hmake.trans herror, hle, .inr ⟨inner, hinner, hnone⟩⟩
  let d : CallRecord :=
    { entry := entry
      given := Value.merge bound named
      named := Value.merge entry.defaults (Value.merge bound named)
      filled := r.named
      method := m
      call := t.session.fresh
      inputs := Value.merge entry.defaults
        (mapValues RealM.standIn (Value.merge entry.defaults (Value.merge bound named)))
      outputs := outputs
      session := session }
  have hunused (v : Value) (hv : .ok v ∈ answers) : ¬v.PackedBy t.session.fresh := by
    intro hpacked
    obtain ⟨call, hcall, hpacked'⟩ := hanswers v hv
    exact Nat.lt_irrefl call (hpacked'.unique hpacked ▸ hcall)
  have houtputs : outputs ≠ [] := by
    rw [← length_pos_iff, ← hlength]
    exact length_pos_iff.mpr hsome
  have hnext : t.session.fresh < session.fresh := hsession₁ ▸ hfresh₁
  obtain ⟨hhanded, hown⟩ :=
    RealM.injected_of_fill (d := d) (hc.hidden entry hentry) houtputs hslots hfill
  exact .inr ⟨d,
    { registered := hentry
      given := ⟨arguments, named, bound, surplus, resolve_of_aim haim, hbind, rfl⟩
      named := rfl
      sources := hsources
      inputs := Value.lookup_merge_again hfrom.nodup RealM.standIn _
      nodup := Value.nodup_keys_merge _ hfrom.nodup
      outputs := hslots
      nonempty := houtputs
      unused := hunused
      ran := congrArg Prod.snd (hmake.trans hdeliver)
      fresh := ⟨Nat.le_refl _, hnext⟩
      answer := congrArg Prod.fst (hmake.trans hdeliver)
      tuple := fun result hgive => hlength ▸ htuples m hm r.named result hgive
      handed := hhanded
      own := hown }⟩

end RealCall

namespace RealState

variable {classes : List (String × NodeClass)} {registry : Registry}
  {displayNames : List (String × Value)} {infos : List Value} {s t : RealState}

section Loaded

variable (hs : s.Loaded classes infos registry)
  (hinfos : SessionM.valuesOf (nodesInfoOf classes displayNames) = .ok infos)
  (hclasses : (classes.map Prod.fst).Nodup) (ht : s.Plainly t)
include hs hinfos hclasses ht

end Loaded

end RealState

end Flowscript
