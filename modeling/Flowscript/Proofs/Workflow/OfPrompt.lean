import Flowscript.Proofs.Workflow.Signature

/-!
# Documents of prompts

The document of a prompt has a node for each entry, and a link for each input that names an output
of another node. Links are numbered node by node, so the number of a link is its place among the
wires of all nodes, and an output lists the numbers of the wires that start there.
-/

namespace Flowscript.Workflow

open List Option

structure PromptInput where
  name : String
  type : Value
  source : String
  slot : Nat

structure PromptNode where
  id : String
  type : String
  inputs : List (String × Value)
  signature : Signature

def linkOf? : Value → Option (String × Nat)
  | .list [.str u, .int (.ofNat s)] => some (u, s)
  | _ => none

def isLink : Value → Bool
  | .list _ => true
  | _ => false

namespace PromptNode

def typeOf (n : PromptNode) (name : String) : Value :=
  ((Value.lookup name n.signature.declared).bind fun config =>
    (config.item (.int 0)).toOption).getD .null

def linksAmong (n : PromptNode) (inputs : List (String × Value)) : List PromptInput :=
  inputs.filterMap fun entry => (linkOf? entry.2).map fun port =>
    ⟨entry.1, n.typeOf entry.1, port.1, port.2⟩

def links (n : PromptNode) : List PromptInput := n.linksAmong n.inputs

def widgets (n : PromptNode) : List (String × Value) :=
  Value.merge [] (n.inputs.filter fun entry => (linkOf? entry.2).isNone)

end PromptNode

def Reads (nodesInfo prompt : Value) (nodes : List PromptNode) : Prop :=
  ∃ entries, prompt = .dict entries ∧ List.Forall₂ (fun entry n => entry.1 = n.id ∧
    entry.2.entry "class_type" = .ok (.str n.type) ∧
    entry.2.entry "inputs" = .ok (.dict n.inputs) ∧
    Describes nodesInfo n.type n.signature) entries nodes

/-- The value is a link to an output of one of the nodes, under a declared name that is not of any
type. -/
def PromptNode.Links (nodes : List PromptNode) (n : PromptNode) (name : String) (v : Value) : Prop :=
  ∃ m ∈ nodes, ∃ s : Nat, v = .list [.str m.id, .int s] ∧ s < m.signature.outputs.length ∧
    ∃ config type, Value.lookup name n.signature.declared = some config ∧
      config.item (.int 0) = .ok type ∧ (type == .str "*") = false

def Connected (nodes : List PromptNode) : Prop :=
  ∀ n ∈ nodes, ∀ entry ∈ n.inputs, entry.2.IsPlain ∨ n.Links nodes entry.1 entry.2

/-! ## Nodes before links -/

def PromptInput.draft (i : PromptInput) : DraftInput :=
  ⟨i.name, i.type, .list [.str i.source, .int i.slot]⟩

section Split

variable {nodes : List PromptNode} {n : PromptNode}

theorem linkOf?_of_isPlain {v : Value} (h : v.IsPlain) : linkOf? v = none := by
  cases v with
  | list items => cases h
  | _ => rfl

theorem isLink_of_isPlain {v : Value} (h : v.IsPlain) : isLink v = false := by
  cases v with
  | list items => cases h
  | _ => rfl

def draftInputs (typeOf : String → Value) (inputs : List (String × Value)) : List DraftInput :=
  (inputs.filter fun entry => isLink entry.2).map fun entry => ⟨entry.1, typeOf entry.1, entry.2⟩

theorem splitInputs_of_declared {declared inputs : List (String × Value)} (typeOf : String → Value)
    (h : ∀ entry ∈ inputs, isLink entry.2 = true → ∃ config,
      Value.lookup entry.1 declared = some config ∧ config.item (.int 0) = .ok (typeOf entry.1)) :
    splitInputs declared inputs = .ok (draftInputs typeOf inputs,
      Value.merge [] (inputs.filter fun entry => !isLink entry.2)) := by
  let parts (inputs : List (String × Value)) : List DraftInput × List (String × Value) :=
    ((draftInputs typeOf inputs).reverse,
      Value.merge [] (inputs.filter fun entry => !isLink entry.2))
  have hstep : ∀ done entry rest state, inputs = done ++ entry :: rest → state = parts done →
      ∃ state', splitInput declared state entry = .ok state' ∧ state' = parts (done ++ [entry]) := by
    rintro done ⟨name, v⟩ rest _ hsplit rfl
    cases v with
    | list items =>
      obtain ⟨config, hconfig, htype⟩ := h (name, .list items) (hsplit ▸ by simp) rfl
      refine ⟨(⟨name, typeOf name, .list items⟩ :: (parts done).1, (parts done).2),
        by simp only [splitInput, hconfig, htype, ok_bind], ?_⟩
      simp [parts, draftInputs, isLink, Value.merge]
    | _ => exact ⟨_, rfl, by simp [parts, draftInputs, isLink, Value.merge]⟩
  obtain ⟨state, hstate, rfl⟩ := foldlM_ok (fun done state => state = parts done) inputs hstep
    (b := ([], [])) rfl
  unfold splitInputs
  rw [hstate, ok_bind, reverse_reverse]

theorem PromptNode.Links.typeOf {entry : String × Value} (h : n.Links nodes entry.1 entry.2) :
    ∃ config, Value.lookup entry.1 n.signature.declared = some config ∧
      config.item (.int 0) = .ok (n.typeOf entry.1) := by
  obtain ⟨m, -, s, -, -, config, type, hconfig, htype, -⟩ := h
  refine ⟨config, hconfig, ?_⟩
  simp [PromptNode.typeOf, hconfig, htype, Except.toOption]

theorem splitInputs_eq
    (h : ∀ entry ∈ n.inputs, entry.2.IsPlain ∨ n.Links nodes entry.1 entry.2) :
    splitInputs n.signature.declared n.inputs = .ok (n.links.map PromptInput.draft, n.widgets) := by
  have hlink : ∀ entry ∈ n.inputs, isLink entry.2 = (linkOf? entry.2).isSome := by
    intro entry hentry
    rcases h entry hentry with hplain | ⟨m, -, s, hv, -⟩
    · rw [linkOf?_of_isPlain hplain, isLink_of_isPlain hplain]
      rfl
    · rw [hv]
      rfl
  have hlinks : ∀ inputs ⊆ n.inputs,
      draftInputs n.typeOf inputs = (n.linksAmong inputs).map PromptInput.draft := by
    intro inputs
    induction inputs with
    | nil => exact fun _ => rfl
    | cons entry rest ih =>
      intro hsub
      have hrest := ih fun _ hmem => hsub (mem_cons_of_mem _ hmem)
      obtain ⟨name, v⟩ := entry
      rcases h _ (hsub mem_cons_self) with hplain | ⟨m, -, s, hv, -⟩
      · simpa [draftInputs, PromptNode.linksAmong, isLink_of_isPlain hplain,
          linkOf?_of_isPlain hplain] using hrest
      · obtain rfl : v = .list [.str m.id, .int s] := hv
        exact congrArg (PromptInput.draft ⟨name, n.typeOf name, m.id, s⟩ :: ·) hrest
  have hwidgets : (n.inputs.filter fun entry => !isLink entry.2) =
      n.inputs.filter fun entry => (linkOf? entry.2).isNone :=
    filter_congr fun entry hentry => by rw [hlink entry hentry, not_isSome]
  rw [splitInputs_of_declared n.typeOf ?_, hlinks _ (List.Subset.refl _), hwidgets]
  · rfl
  · intro entry hentry hisLink
    rcases h entry hentry with hplain | hlinks
    · rw [isLink_of_isPlain hplain] at hisLink
      cases hisLink
    · exact hlinks.typeOf

def PromptNode.draft (n : PromptNode) : DraftNode :=
  ⟨n.id, .str n.type, n.links.map PromptInput.draft,
    n.signature.outputs.map fun o => ⟨.str o.1, o.2, []⟩, n.widgets⟩

theorem draftNode_eq {nodesInfo node : Value} (hnode : node.entry "class_type" = .ok (.str n.type))
    (hinputs : node.entry "inputs" = .ok (.dict n.inputs))
    (hdescribes : Describes nodesInfo n.type n.signature)
    (h : ∀ entry ∈ n.inputs, entry.2.IsPlain ∨ n.Links nodes entry.1 entry.2) :
    draftNode nodesInfo n.id node = .ok n.draft := by
  obtain ⟨info, hinfo, hdeclared, houtputs⟩ := draft_of_describes hdescribes
  have hentries : (Value.dict n.inputs).entries = .ok n.inputs := rfl
  unfold draftNode
  simp only [hnode, hinfo, hdeclared, hinputs, hentries, splitInputs_eq h, houtputs, ok_bind]
  rfl

theorem mapM_of_forall₂ {α β γ : Type} {R : α → β → Prop} {f : α → Except Fault γ} {g : β → γ}
    {as : List α} {bs : List β} (h : List.Forall₂ R as bs)
    (hf : ∀ a, ∀ b ∈ bs, R a b → f a = .ok (g b)) : as.mapM f = .ok (bs.map g) := by
  induction h with
  | nil => rfl
  | cons hab _ ih =>
    rw [mapM_cons, hf _ _ mem_cons_self hab, ok_bind,
      ih fun a b hb => hf a b (mem_cons_of_mem _ hb)]
    rfl

theorem drafts_of_reads {nodesInfo prompt : Value} (hreads : Reads nodesInfo prompt nodes)
    (hconnected : Connected nodes) :
    (do (← prompt.entries).mapM fun (entry : String × Value) =>
      draftNode nodesInfo entry.1 entry.2) =
      .ok (nodes.map PromptNode.draft) := by
  obtain ⟨entries, rfl, hentries⟩ := hreads
  have hread : (Value.dict entries).entries = .ok entries := rfl
  rw [hread, ok_bind]
  refine mapM_of_forall₂ hentries fun entry n hn hentry => ?_
  obtain ⟨hid, htype, hinputs, hdescribes⟩ := hentry
  rw [hid]
  exact draftNode_eq htype hinputs hdescribes (hconnected n hn)

end Split

/-! ## Links -/

structure Wire where
  target : String
  place : Nat
  input : PromptInput

def PromptNode.wires (n : PromptNode) : List Wire :=
  n.links.zipIdx.map fun entry => ⟨n.id, entry.2, entry.1⟩

def wires (nodes : List PromptNode) : List Wire := nodes.flatMap PromptNode.wires

def Wire.draft (w : Wire) (k : Nat) : DraftLink :=
  ⟨k, .str w.input.source, .int w.input.slot, w.target, w.place, w.input.type⟩

def linksFrom (ws : List Wire) (id : String) (slot : Nat) : List Nat :=
  ws.zipIdx.filterMap fun entry =>
    if entry.1.input.source = id ∧ entry.1.input.slot = slot then some entry.2 else none

theorem mem_linksFrom {ws : List Wire} {id : String} {slot k : Nat} :
    k ∈ linksFrom ws id slot ↔
      ∃ w, ws[k]? = some w ∧ w.input.source = id ∧ w.input.slot = slot := by
  simp only [linksFrom, mem_filterMap, Prod.exists, mem_zipIdx_iff_getElem?]
  constructor
  · rintro ⟨w, l, hw, hif⟩
    split at hif
    next hsource =>
      obtain rfl := some.inj hif
      exact ⟨w, hw, hsource⟩
    · cases hif
  · rintro ⟨w, hw, hsource⟩
    exact ⟨w, k, hw, if_pos hsource⟩

theorem linksFrom_append (ws : List Wire) (w : Wire) (id : String) (slot : Nat) :
    linksFrom (ws ++ [w]) id slot = linksFrom ws id slot ++
      if w.input.source = id ∧ w.input.slot = slot then [ws.length] else [] := by
  unfold linksFrom
  rw [zipIdx_append, filterMap_append]
  congr 1
  by_cases h : w.input.source = id ∧ w.input.slot = slot <;> simp [h]

def draftLinks (ws : List Wire) : List DraftLink := ws.zipIdx.map fun entry => entry.1.draft entry.2

theorem draftLinks_append (ws : List Wire) (w : Wire) :
    draftLinks (ws ++ [w]) = draftLinks ws ++ [w.draft ws.length] := by
  simp [draftLinks, zipIdx_append]

theorem length_draftLinks (ws : List Wire) : (draftLinks ws).length = ws.length := by
  simp [draftLinks]

def DraftInput.port (i : DraftInput) : PromptInput :=
  let port := (linkOf? i.source).getD ("", 0)
  ⟨i.name, i.type, port.1, port.2⟩

theorem PromptInput.port_draft (i : PromptInput) : i.draft.port = i := rfl

namespace DraftNode

def wires (n : DraftNode) : List Wire :=
  n.inputs.zipIdx.map fun entry => ⟨n.id, entry.2, entry.1.port⟩

def wired (ws : List Wire) (n : DraftNode) : DraftNode :=
  { n with outputs := n.outputs.zipIdx.map fun entry =>
      { entry.1 with links := linksFrom ws n.id entry.2 } }

@[simp]
theorem id_wired (ws : List Wire) (n : DraftNode) : (n.wired ws).id = n.id := rfl

def Names (nodes : List DraftNode) (v : Value) : Prop :=
  ∃ m ∈ nodes, ∃ s : Nat, v = .list [.str m.id, .int s] ∧ s < m.outputs.length

/-- Nodes with different ids and outputs without links, whose inputs all name outputs. -/
structure Ready (nodes : List DraftNode) : Prop where
  ids : (nodes.map DraftNode.id).Nodup
  unlinked : ∀ n ∈ nodes, ∀ o ∈ n.outputs, o.links = []
  named : ∀ n ∈ nodes, ∀ i ∈ n.inputs, Names nodes i.source

section Links

variable {nodes : List DraftNode} {n : DraftNode} {w : Wire}

theorem wired_nil (h : ∀ o ∈ n.outputs, o.links = []) : n.wired [] = n := by
  have houtputs : (n.outputs.zipIdx.map fun entry =>
      { entry.1 with links := linksFrom [] n.id entry.2 }) = n.outputs := by
    refine ext_getElem? fun k => ?_
    rw [getElem?_map, getElem?_zipIdx]
    cases hk : n.outputs[k]? with
    | none => rfl
    | some o =>
      obtain ⟨name, type, links⟩ := o
      obtain rfl : links = [] := h _ (mem_of_getElem? hk)
      rfl
  unfold wired
  rw [houtputs]

theorem addLink_wired {ws : List Wire} (hsource : n.id = w.input.source)
    (hslot : w.input.slot < n.outputs.length) :
    addLink (n.wired ws).outputs (.int w.input.slot) ws.length = .ok (n.wired (ws ++ [w])).outputs := by
  have hlength : (n.wired ws).outputs.length = n.outputs.length := by simp [wired]
  have hposition : Value.position? (n.wired ws).outputs.length w.input.slot = some w.input.slot := by
    simp [Value.position?, hlength, hslot]
  have hindex : (Value.int w.input.slot).index? = some (w.input.slot : Int) := rfl
  unfold addLink
  simp only [hindex, hposition]
  refine congrArg Except.ok (List.ext_getElem? fun k => ?_)
  simp only [List.getElem?_modify, wired, List.getElem?_map, List.getElem?_zipIdx, Option.map_map,
    Option.map_eq_map, linksFrom_append, hsource, true_and, Function.comp_def]
  congr 1
  funext o
  by_cases hk : w.input.slot = k <;> simp [hk]

theorem wired_append_of_ne {ws : List Wire} (hsource : n.id ≠ w.input.source) :
    n.wired (ws ++ [w]) = n.wired ws := by
  unfold wired
  simp only [linksFrom_append, hsource.symm, false_and, if_false, append_nil]

theorem addLinkAt_wired (hids : (nodes.map DraftNode.id).Nodup) (ws : List Wire) {m : DraftNode}
    (hm : m ∈ nodes) (hsource : m.id = w.input.source) (hslot : w.input.slot < m.outputs.length) :
    addLinkAt (nodes.map (wired ws)) (.str w.input.source) (.int w.input.slot) ws.length =
      .ok (nodes.map (wired (ws ++ [w]))) := by
  have hany : ((nodes.map (wired ws)).any fun n => n.id == w.input.source) = true := by
    rw [List.any_map, List.any_eq_true]
    exact ⟨m, hm, beq_iff_eq.mpr hsource⟩
  have hstep : ∀ n ∈ nodes, (if (n.wired ws).id == w.input.source then do
      .ok { n.wired ws with outputs := ← addLink (n.wired ws).outputs (.int w.input.slot) ws.length }
      else .ok (n.wired ws) : Except Fault DraftNode) = .ok (n.wired (ws ++ [w])) := by
    intro n hn
    by_cases hid : n.id = w.input.source
    · obtain rfl : n = m := inj_on_of_nodup_map hids hn hm (hid.trans hsource.symm)
      rw [id_wired, if_pos (beq_iff_eq.mpr hid), addLink_wired hid hslot, ok_bind]
      rfl
    · rw [id_wired, if_neg (by simpa using hid), wired_append_of_ne hid]
  have hhash : (Value.str w.input.source).hashable = true := rfl
  have htext : (Value.str w.input.source).text? = some w.input.source := rfl
  unfold addLinkAt
  simp only [hhash, htext, hany, Bool.not_true, Bool.false_eq_true, if_false, if_true]
  rw [mapM_map]
  exact mapM_eq_map hstep

theorem link_wired (hids : (nodes.map DraftNode.id).Nodup) (ws : List Wire) {i : DraftInput}
    (hi : Names nodes i.source) (target : String) (place : Nat) :
    link (nodes.map (wired ws), draftLinks ws) target place i =
      .ok (nodes.map (wired (ws ++ [⟨target, place, i.port⟩])),
        draftLinks (ws ++ [⟨target, place, i.port⟩])) := by
  obtain ⟨name, type, source⟩ := i
  obtain ⟨m, hm, s, rfl, hs⟩ := hi
  have hfirst : (Value.list [.str m.id, .int s]).item (.int 0) = .ok (.str m.id) := rfl
  have hsecond : (Value.list [.str m.id, .int s]).item (.int 1) = .ok (.int s) := rfl
  have hadd := addLinkAt_wired (w := ⟨target, place, ⟨name, type, m.id, s⟩⟩) hids ws hm rfl hs
  unfold link
  simp only [hfirst, hsecond, ok_bind, length_draftLinks, hadd, draftLinks_append]
  rfl

theorem linkNode_wired (hids : (nodes.map DraftNode.id).Nodup) (ws : List Wire)
    (hn : ∀ i ∈ n.inputs, Names nodes i.source) :
    linkNode (nodes.map (wired ws), draftLinks ws) n =
      .ok (nodes.map (wired (ws ++ n.wires)), draftLinks (ws ++ n.wires)) := by
  let wire (entry : DraftInput × Nat) : Wire := ⟨n.id, entry.2, entry.1.port⟩
  have hstep : ∀ done (entry : DraftInput × Nat) rest (state : List DraftNode × List DraftLink),
      n.inputs.zipIdx = done ++ entry :: rest →
      state = (nodes.map (wired (ws ++ done.map wire)), draftLinks (ws ++ done.map wire)) →
      ∃ state', link state n.id entry.2 entry.1 = .ok state' ∧
        state' = (nodes.map (wired (ws ++ (done ++ [entry]).map wire)),
          draftLinks (ws ++ (done ++ [entry]).map wire)) := by
    rintro done entry rest _ hsplit rfl
    have hmem : entry ∈ n.inputs.zipIdx := hsplit ▸ by simp
    refine ⟨_, link_wired hids _ (hn _ (fst_mem_of_mem_zipIdx hmem)) n.id entry.2, ?_⟩
    rw [append_assoc, map_append, map_singleton]
  obtain ⟨state, hstate, rfl⟩ := foldlM_ok (fun done state =>
    state = (nodes.map (wired (ws ++ done.map wire)), draftLinks (ws ++ done.map wire)))
    n.inputs.zipIdx hstep (b := (nodes.map (wired ws), draftLinks ws)) (by simp)
  exact hstate

theorem Ready.linkAll (h : Ready nodes) :
    linkAll nodes = .ok (nodes.map (wired (nodes.flatMap wires)), draftLinks (nodes.flatMap wires)) := by
  have hstep : ∀ done n rest (state : List DraftNode × List DraftLink), nodes = done ++ n :: rest →
      state = (nodes.map (wired (done.flatMap wires)), draftLinks (done.flatMap wires)) →
      ∃ state', linkNode state n = .ok state' ∧
        state' = (nodes.map (wired ((done ++ [n]).flatMap wires)),
          draftLinks ((done ++ [n]).flatMap wires)) := by
    rintro done n rest _ hsplit rfl
    refine ⟨_, linkNode_wired h.ids _ (h.named n (hsplit ▸ by simp)), ?_⟩
    simp
  obtain ⟨state, hstate, rfl⟩ := foldlM_ok (fun done state =>
    state = (nodes.map (wired (done.flatMap wires)), draftLinks (done.flatMap wires))) nodes hstep
    (b := (nodes.map (wired []), [])) rfl
  have hnodes : nodes.map (wired []) = nodes :=
    (map_congr_left fun n hn => wired_nil (h.unlinked n hn)).trans (map_id nodes)
  rw [hnodes] at hstate
  exact hstate

end Links

end DraftNode

def wired (ws : List Wire) (n : PromptNode) : DraftNode :=
  { n.draft with outputs := n.signature.outputs.zipIdx.map fun entry =>
      ⟨.str entry.1.1, entry.1.2, linksFrom ws n.id entry.2⟩ }

@[simp]
theorem wired_id (ws : List Wire) (n : PromptNode) : (wired ws n).id = n.id := rfl

theorem wired_eq (ws : List Wire) (n : PromptNode) : wired ws n = n.draft.wired ws := by
  simp [wired, DraftNode.wired, PromptNode.draft, zipIdx_map, Function.comp_def]

theorem wires_draft (n : PromptNode) : n.draft.wires = n.wires := by
  simp [DraftNode.wires, PromptNode.wires, PromptNode.draft, zipIdx_map, Function.comp_def,
    PromptInput.port_draft]

section Links

variable {nodes : List PromptNode}

def Sourced (nodes : List PromptNode) (ws : List Wire) : Prop :=
  ∀ w ∈ ws, ∃ m ∈ nodes, m.id = w.input.source ∧ w.input.slot < m.signature.outputs.length

theorem linkAll_eq (hids : (nodes.map PromptNode.id).Nodup) (hsourced : Sourced nodes (wires nodes)) :
    linkAll (nodes.map PromptNode.draft) =
      .ok (nodes.map (wired (wires nodes)), draftLinks (wires nodes)) := by
  have hready : DraftNode.Ready (nodes.map PromptNode.draft) := by
    refine ⟨by rwa [List.map_map], ?_, ?_⟩
    · simp only [List.mem_map]
      rintro _ ⟨n, -, rfl⟩ o ho
      obtain ⟨_, -, rfl⟩ := mem_map.mp ho
      rfl
    · simp only [List.mem_map]
      rintro _ ⟨n, hn, rfl⟩ i hi
      obtain ⟨i, hlink, rfl⟩ := mem_map.mp hi
      obtain ⟨k, hk⟩ := getElem?_of_mem hlink
      have hw : ⟨n.id, k, i⟩ ∈ wires nodes := mem_flatMap.mpr ⟨n, hn,
        mem_map.mpr ⟨(i, k), mem_zipIdx_iff_getElem?.mpr hk, rfl⟩⟩
      obtain ⟨m, hm, hsource, hslot⟩ := hsourced _ hw
      refine ⟨m.draft, mem_map_of_mem hm, i.slot, ?_, by simpa [PromptNode.draft] using hslot⟩
      rw [PromptInput.draft, ← hsource]
      rfl
  have hwires : (nodes.map PromptNode.draft).flatMap DraftNode.wires = wires nodes := by
    rw [flatMap_map]
    exact congrArg (fun f => nodes.flatMap f) (funext wires_draft)
  rw [hready.linkAll, hwires, List.map_map]
  simp only [Function.comp_def, ← wired_eq]

theorem of_mem_links (hconnected : Connected nodes) {n : PromptNode} (hn : n ∈ nodes)
    {i : PromptInput} (hi : i ∈ n.links) :
    (i.name, .list [.str i.source, .int i.slot]) ∈ n.inputs ∧ i.name ∈ n.signature.declared.map Prod.fst ∧
      (i.type == .str "*") = false ∧
      ∃ m ∈ nodes, m.id = i.source ∧ i.slot < m.signature.outputs.length := by
  obtain ⟨entry, hentry, hmap⟩ := mem_filterMap.mp hi
  obtain ⟨port, hport, rfl⟩ := map_eq_some_iff.mp hmap
  rcases hconnected n hn entry hentry with hplain | ⟨m, hm, s, hv, hs, config, type, hconfig, htype, hany⟩
  · rw [linkOf?_of_isPlain hplain] at hport
    cases hport
  · obtain ⟨name, v⟩ := entry
    obtain rfl : v = .list [.str m.id, .int s] := hv
    obtain rfl : (m.id, s) = port := some.inj hport
    have htypeOf : n.typeOf name = type := by
      simp [PromptNode.typeOf, hconfig, htype, Except.toOption]
    refine ⟨hentry, ?_, htypeOf ▸ hany, m, hm, rfl, hs⟩
    rw [Value.lookup_eq_find?] at hconfig
    exact mem_map.mpr ⟨_, Table.mem_of_find? hconfig, rfl⟩

theorem sourced_of_connected (hconnected : Connected nodes) : Sourced nodes (wires nodes) := by
  intro w hw
  obtain ⟨n, hn, hw⟩ := mem_flatMap.mp hw
  obtain ⟨⟨i, k⟩, hik, rfl⟩ := mem_map.mp hw
  exact (of_mem_links hconnected hn (fst_mem_of_mem_zipIdx hik)).2.2.2

theorem ofPrompt_eq {nodesInfo prompt : Value} (hreads : Reads nodesInfo prompt nodes)
    (hids : (nodes.map PromptNode.id).Nodup) (hconnected : Connected nodes) :
    ofPrompt prompt nodesInfo =
      .ok (documentOfParts (nodes.map (wired (wires nodes))) (draftLinks (wires nodes))) := by
  obtain ⟨entries, hentries, hdrafts⟩ := ok_of_bind (drafts_of_reads hreads hconnected)
  unfold ofPrompt
  rw [hentries, ok_bind, hdrafts, ok_bind, linkAll_eq hids (sourced_of_connected hconnected), ok_bind]

end Links

end Flowscript.Workflow
