import Flowscript.Proofs.Workflow.Liveness
import Flowscript.Proofs.Workflow.OfPrompt

/-!
# The dataflow of prompts

A prompt is opened as a document, whose sheet has the nodes and links of the prompt. So the script of
a prompt has a statement for each node that its end nodes need, and each linked input is read from
the variable that was last written for the output that it names.
-/

namespace Flowscript

open List Option

namespace Value

theorem entriesAsRecords_eq_map (entries : List (String × Value)) :
    entriesAsRecords entries = entries.map fun entry => (entry.1, entry.2.asRecords) := by
  induction entries with
  | nil => rfl
  | cons entry rest ih =>
    obtain ⟨k, v⟩ := entry
    rw [entriesAsRecords, ih, map_cons, entryAsRecord]

theorem IsPlain.asRecords {v : Value} (h : v.IsPlain) : v.asRecords = v := by
  cases v with
  | null | bool _ | int _ | float _ | str _ => rfl
  | _ => cases h

theorem asRecords_beq_str (v : Value) (s : String) : (v.asRecords == str s) = (v == str s) := by
  cases v <;> rfl

end Value

namespace Workflow

open Relation

theorem IsType.asRecords_ne_null {v : Value} (h : IsType v) : (v.asRecords == .null) = false := by
  cases v with
  | str _ | list _ | tuple _ => rfl
  | _ => cases h

/-! ## The sheet of a prompt -/

def PromptInput.record (i : PromptInput) (link : Nat) : Value :=
  .record [("name", .str i.name), ("type", i.type.asRecords), ("link", .int link)]

def outputRecord (o : String × Value) (links : List Nat) : Value :=
  .record [("name", .str o.1), ("type", o.2.asRecords),
    ("links", .list (links.map fun (l : Nat) => .int l))]

def PromptNode.record (ws : List Wire) (order next : Nat) (n : PromptNode) : Value :=
  ((wired ws n).toValue order next).asRecords

def recordsFrom (ws : List Wire) : Nat → Nat → List PromptNode → List (Value × Value)
  | _, _, [] => []
  | order, next, n :: rest =>
    (.str n.id, n.record ws order next) :: recordsFrom ws (order + 1) (next + n.links.length) rest

def Wire.edge (w : Wire) (k : Nat) : Edge :=
  ⟨.str w.input.source, .str w.target, .int k, .int w.input.slot, .int w.place, w.input.type.asRecords⟩

def edgesOf (ws : List Wire) : List Edge := ws.zipIdx.map fun entry => entry.1.edge entry.2

def sheetOf (nodes : List PromptNode) : Sheet :=
  ⟨recordsFrom (wires nodes) 0 0 nodes, edgesOf (wires nodes)⟩

section Records

variable {ws : List Wire} {nodes : List PromptNode} {n : PromptNode}

theorem PromptNode.length_wires (n : PromptNode) : n.wires.length = n.links.length := by
  simp [PromptNode.wires]

theorem mem_recordsFrom {order next : Nat} {x : Value × Value} : x ∈ recordsFrom ws order next nodes ↔
    ∃ done n rest, nodes = done ++ n :: rest ∧
      x = (.str n.id, n.record ws (order + done.length) (next + (wires done).length)) := by
  induction nodes generalizing order next with
  | nil => simp [recordsFrom]
  | cons n rest ih =>
    have hnext (done : List PromptNode) :
        n.links.length + (wires done).length = (wires (n :: done)).length := by
      simp [wires, n.length_wires]
    rw [recordsFrom, mem_cons, ih]
    constructor
    · rintro (rfl | ⟨done, m, rest', rfl, rfl⟩)
      · exact ⟨[], n, rest, rfl, rfl⟩
      · refine ⟨n :: done, m, rest', rfl, ?_⟩
        rw [← hnext, length_cons, Nat.add_assoc, Nat.add_assoc, Nat.add_comm 1]
    · rintro ⟨done, m, rest', hsplit, rfl⟩
      cases done with
      | nil =>
        obtain ⟨rfl, -⟩ := cons.inj hsplit
        exact .inl rfl
      | cons b done =>
        obtain ⟨rfl, rfl⟩ := cons.inj hsplit
        refine .inr ⟨done, m, rest', rfl, ?_⟩
        rw [← hnext, length_cons, Nat.add_assoc, Nat.add_assoc, Nat.add_comm 1]

theorem mem_sheetOf {x : Value × Value} : x ∈ (sheetOf nodes).nodes ↔
    ∃ done n rest, nodes = done ++ n :: rest ∧
      x = (.str n.id, n.record (wires nodes) done.length (wires done).length) := by
  have hrecords := @mem_recordsFrom (wires nodes) nodes 0 0 x
  simp only [Nat.zero_add] at hrecords
  exact hrecords

theorem map_fst_recordsFrom (ws : List Wire) (order next : Nat) (nodes : List PromptNode) :
    (recordsFrom ws order next nodes).map Prod.fst = nodes.map fun n => .str n.id := by
  induction nodes generalizing order next with
  | nil => rfl
  | cons n rest ih => rw [recordsFrom, map_cons, ih, map_cons]

theorem map_snd_recordsFrom (ws : List Wire) (order next : Nat) (nodes : List PromptNode) :
    (recordsFrom ws order next nodes).map Prod.snd =
      Value.itemsAsRecords (nodeValues order next (nodes.map (wired ws))) := by
  have hinputs (n : PromptNode) : (wired ws n).inputs.length = n.links.length := by
    simp [wired, PromptNode.draft]
  induction nodes generalizing order next with
  | nil => rfl
  | cons n rest ih =>
    rw [recordsFrom, map_cons, ih, map_cons, nodeValues, Value.itemsAsRecords, hinputs]
    rfl

theorem getElem?_wires (done rest : List PromptNode) {i : PromptInput} {k : Nat} (hi : n.links[k]? = some i) :
    (wires (done ++ n :: rest))[(wires done).length + k]? = some ⟨n.id, k, i⟩ := by
  have hwires : wires (done ++ n :: rest) = wires done ++ (n.wires ++ wires rest) := by
    simp [wires]
  have hget : n.wires[k]? = some ⟨n.id, k, i⟩ := by
    simp [PromptNode.wires, hi]
  rw [hwires, getElem?_append_right (by omega), Nat.add_sub_cancel_left,
    List.getElem?_append_left (List.getElem?_eq_some_iff.mp hget).1, hget]

theorem map_row_edgesOf (ws : List Wire) :
    (edgesOf ws).map Edge.row = Value.itemsAsRecords ((draftLinks ws).map DraftLink.toValue) := by
  rw [Value.itemsAsRecords_eq_map, edgesOf, draftLinks, List.map_map, List.map_map, List.map_map]
  rfl

theorem map_key_edgesOf (ws : List Wire) :
    (edgesOf ws).map Edge.key = (List.range ws.length).map fun (k : Nat) => .int k := by
  refine List.ext_getElem? fun k => ?_
  by_cases hk : k < ws.length
  · simp [edgesOf, Wire.edge, hk]
  · simp [edgesOf, hk]

theorem mem_edgesOf {e : Edge} (h : e ∈ edgesOf ws) :
    ∃ (k : Nat) (w : Wire), ws[k]? = some w ∧ e = w.edge k := by
  obtain ⟨⟨w, k⟩, hwk, rfl⟩ := mem_map.mp h
  exact ⟨k, w, mem_zipIdx_iff_getElem?.mp hwk, rfl⟩

theorem edge_mem_edgesOf {w : Wire} {k : Nat} (h : ws[k]? = some w) : w.edge k ∈ edgesOf ws :=
  mem_map.mpr ⟨(w, k), mem_zipIdx_iff_getElem?.mpr h, rfl⟩

theorem isId_key_edgesOf : ∀ e ∈ edgesOf ws, e.key.IsId := by
  intro e he
  obtain ⟨k, w, -, rfl⟩ := mem_edgesOf he
  trivial

theorem nodup_key_edgesOf (ws : List Wire) : ((edgesOf ws).map Edge.key).Nodup := by
  rw [map_key_edgesOf]
  refine nodup_range.map fun k l h => ?_
  exact Int.natCast_inj.mp (Value.int.inj h)

theorem mem_inputsOf_record {order next : Nat} {v : Value} : v ∈ inputsOf (n.record ws order next) ↔
    ∃ (k : Nat) (i : PromptInput), n.links[k]? = some i ∧ v = i.record (next + k) := by
  have hinputs : inputsOf (n.record ws order next) =
      n.links.zipIdx.map fun entry => entry.1.record (next + entry.2) := by
    change Value.itemsAsRecords (inputValues next (n.links.map PromptInput.draft)) = _
    rw [Value.itemsAsRecords_eq_map, inputValues, List.zipIdx_map, List.map_map, List.map_map]
    rfl
  rw [hinputs, List.mem_map]
  constructor
  · rintro ⟨⟨i, k⟩, hik, rfl⟩
    exact ⟨k, i, mem_zipIdx_iff_getElem?.mp hik, rfl⟩
  · rintro ⟨k, i, hik, rfl⟩
    exact ⟨(i, k), mem_zipIdx_iff_getElem?.mpr hik, rfl⟩

theorem getElem?_outputsOf_record (ws : List Wire) (order next s : Nat) :
    (outputsOf (n.record ws order next))[s]? =
      n.signature.outputs[s]?.map fun o => outputRecord o (linksFrom ws n.id s) := by
  have houtputs : outputsOf (n.record ws order next) =
      n.signature.outputs.zipIdx.map fun entry => outputRecord entry.1 (linksFrom ws n.id entry.2) := by
    change Value.itemsAsRecords ((wired ws n).outputs.map DraftOutput.toValue) = _
    rw [Value.itemsAsRecords_eq_map, wired, List.map_map, List.map_map]
    refine List.map_congr_left fun entry _ => ?_
    change Value.record [("name", .str entry.1.1), ("type", entry.1.2.asRecords),
      ("links", .list (Value.itemsAsRecords ((linksFrom ws n.id entry.2).map fun (l : Nat) =>
        .int l)))] = _
    rw [Value.itemsAsRecords_eq_map, List.map_map]
    rfl
  rw [houtputs, List.getElem?_map, List.getElem?_zipIdx, Option.map_map]
  cases n.signature.outputs[s]? with
  | none => rfl
  | some o => simp

theorem exists_output {order next : Nat} {v : Value} (h : v ∈ outputsOf (n.record ws order next)) :
    ∃ s, ∃ o ∈ n.signature.outputs, v = outputRecord o (linksFrom ws n.id s) := by
  obtain ⟨s, hs⟩ := mem_iff_getElem?.mp h
  rw [getElem?_outputsOf_record, map_eq_some_iff] at hs
  obtain ⟨o, ho, rfl⟩ := hs
  exact ⟨s, o, mem_of_getElem? ho, rfl⟩

end Records

section Prompts

variable {nodes : List PromptNode}

theorem isPlain_of_mem_widgets (hconnected : Connected nodes) {n : PromptNode} (hn : n ∈ nodes) :
    ∀ entry ∈ n.widgets, entry.2.IsPlain := by
  intro entry hentry
  rcases Value.mem_merge hentry with hnil | hmem
  · cases hnil
  · obtain ⟨hinput, hnone⟩ := mem_filter.mp hmem
    rcases hconnected n hn entry hinput with hplain | ⟨m, -, s, hv, -⟩
    · exact hplain
    · rw [hv] at hnone
      cases hnone

theorem field_widgets_record {n : PromptNode} (hwidgets : ∀ entry ∈ n.widgets, entry.2.IsPlain)
    (ws : List Wire) (order next : Nat) :
    (n.record ws order next).field? "widgets_values" = some (.record n.widgets) := by
  change some (Value.record (Value.entriesAsRecords n.widgets)) = _
  rw [Value.entriesAsRecords_eq_map]
  refine congrArg (fun entries => some (Value.record entries))
    ((map_congr_left fun entry hentry => ?_).trans (map_id _))
  rw [(hwidgets entry hentry).asRecords]
  rfl

theorem keyed_sheetOf (hids : (nodes.map PromptNode.id).Nodup) (hconnected : Connected nodes) :
    (sheetOf nodes).Keyed := by
  have hfst := map_fst_recordsFrom (wires nodes) 0 0 nodes
  have hmem {id : String} (h : ∃ n ∈ nodes, n.id = id) : .str id ∈ (sheetOf nodes).nodes.map Prod.fst := by
    obtain ⟨n, hn, rfl⟩ := h
    exact hfst ▸ mem_map.mpr ⟨n, hn, rfl⟩
  refine ⟨fun x hx => ?_, ?_, isId_key_edgesOf, nodup_key_edgesOf _, fun x hx => ?_, fun e he => ?_,
    fun e he => ?_⟩
  · obtain ⟨done, n, rest, -, rfl⟩ := mem_sheetOf.mp hx
    trivial
  · have hstr : Function.Injective Value.str := fun s t h => Value.str.inj h
    have hnodup := hids.map hstr
    rw [List.map_map] at hnodup
    exact hfst ▸ hnodup
  · obtain ⟨done, n, rest, -, rfl⟩ := mem_sheetOf.mp hx
    rfl
  · obtain ⟨k, w, hw, rfl⟩ := mem_edgesOf he
    obtain ⟨m, hm, hsource, -⟩ := sourced_of_connected hconnected w (mem_of_getElem? hw)
    exact hmem ⟨m, hm, hsource⟩
  · obtain ⟨k, w, hw, rfl⟩ := mem_edgesOf he
    obtain ⟨n, hn, hwn⟩ := mem_flatMap.mp (mem_of_getElem? hw)
    obtain ⟨entry, -, rfl⟩ := mem_map.mp hwn
    exact hmem ⟨n, hn, rfl⟩

theorem isOf_sheetOf (nodes : List PromptNode) : (sheetOf nodes).IsOf
    (documentOfParts (nodes.map (wired (wires nodes))) (draftLinks (wires nodes))).asRecords where
  nodes := by
    rw [sheetOf, map_snd_recordsFrom]
    rfl
  links := by
    rw [sheetOf, map_row_edgesOf]
    rfl

theorem exists_from_sheetOf (hconnected : Connected nodes) {done rest : List PromptNode} {n : PromptNode}
    (hsplit : nodes = done ++ n :: rest) {i : PromptInput} {k : Nat} (hi : n.links[k]? = some i) :
    ∃ u, u.1 = .str i.source ∧ (sheetOf nodes).From (.int ((wires done).length + k : Nat)) u i.slot := by
  have hwire : (wires nodes)[(wires done).length + k]? = some ⟨n.id, k, i⟩ :=
    hsplit ▸ getElem?_wires done rest hi
  obtain ⟨m, hm, hsource, -⟩ := sourced_of_connected hconnected _ (mem_of_getElem? hwire)
  obtain ⟨done', rest', hsplit'⟩ := append_of_mem hm
  exact ⟨_, congrArg Value.str hsource, mem_sheetOf.mpr ⟨done', m, rest', hsplit', rfl⟩, _,
    edge_mem_edgesOf hwire, rfl, congrArg Value.str hsource.symm, rfl⟩

end Prompts

/-! ## Prompts whose scripts can be written -/

def PromptFeeds (nodes : List PromptNode) (x y : String) : Prop :=
  ∃ n ∈ nodes, n.id = y ∧ ∃ i ∈ n.links, i.source = x

/-- A prompt of known ordinary nodes with different ids and inputs of different names, in which
links lead to outputs that exist and in no circle, and whose outputs can be named. -/
structure WellFormed (nodesInfo prompt : Value) (nodes : List PromptNode) : Prop where
  reads : Reads nodesInfo prompt nodes
  ids : (nodes.map PromptNode.id).Nodup
  unversioned : "version" ∉ nodes.map PromptNode.id
  inputs : ∀ n ∈ nodes, (n.inputs.map Prod.fst).Nodup
  connected : Connected nodes
  acyclic : ∀ x, ¬ TransGen (PromptFeeds nodes) x x
  ordinary : ∀ n ∈ nodes, IsOrdinary n.type
  outputs : ∀ n ∈ nodes, ∀ o ∈ n.signature.outputs, Identifier.variableId o.1 ≠ "_"

theorem promptFeeds_of_feeds {nodes : List PromptNode} {x y : Value} (h : (sheetOf nodes).Feeds x y) :
    ∃ a b, x = .str a ∧ y = .str b ∧ PromptFeeds nodes a b := by
  obtain ⟨e, he, rfl, rfl⟩ := h
  obtain ⟨k, w, hw, rfl⟩ := mem_edgesOf he
  obtain ⟨n, hn, hwn⟩ := mem_flatMap.mp (mem_of_getElem? hw)
  obtain ⟨entry, hentry, rfl⟩ := mem_map.mp hwn
  exact ⟨_, _, rfl, rfl, n, hn, rfl, entry.1, fst_mem_of_mem_zipIdx hentry, rfl⟩

namespace WellFormed

variable {nodesInfo prompt : Value} {nodes : List PromptNode} {n : PromptNode}
  (h : WellFormed nodesInfo prompt nodes) (hn : n ∈ nodes) (ws : List Wire) (order next : Nat)

include h hn

theorem describes : Describes nodesInfo n.type n.signature := by
  obtain ⟨entries, -, hentries⟩ := h.reads
  obtain ⟨k, hk, rfl⟩ := mem_iff_getElem.mp hn
  exact (hentries.get (hentries.length_eq ▸ hk) hk).2.2.2

theorem nodup_links : (n.links.map PromptInput.name).Nodup := by
  refine pairwise_map.mpr ((pairwise_map.mp (h.inputs n hn)).filterMap _ ?_)
  intro entry entry' hne i hi j hj
  obtain ⟨port, -, rfl⟩ := map_eq_some_iff.mp hi
  obtain ⟨port', -, rfl⟩ := map_eq_some_iff.mp hj
  exact hne

theorem suggestedName_record {o : String × Value} (ho : o ∈ n.signature.outputs) (links : List Nat) :
    suggestedName (n.record ws order next) (outputRecord o links) = .ok o.1 := by
  have hne : o.1 ≠ "" := by
    intro hempty
    exact h.outputs n hn o ho (hempty ▸ by decide +kernel)
  have hbeq : (Value.str o.1 == .str "") = false := by simpa using hne
  change (if Value.str o.1 == .str "" then Identifier.nameOf o.2.asRecords else do
    Identifier.nameOf (← Value.add (.str "") (.str o.1))) = _
  rw [hbeq]
  change Except.ok ("" ++ o.1) = _
  rw [String.empty_append]

theorem inOrder_record : InOrder (n.record ws order next) where
  record := ⟨_, rfl⟩
  mode := rfl
  inputs := .inr ⟨_, rfl⟩
  names v hv w hw _ _ hname := by
    obtain ⟨k, i, hi, rfl⟩ := mem_inputsOf_record.mp hv
    obtain ⟨l, j, hj, rfl⟩ := mem_inputsOf_record.mp hw
    have hkl : k = l := by
      refine (getElem?_inj (l := n.links.map PromptInput.name) ?_ (h.nodup_links hn)).mp ?_
      · simpa using (List.getElem?_eq_some_iff.mp hi).1
      · simpa [hi, hj] using some.inj hname
    subst hkl
    rw [some.inj (hi.symm.trans hj)]
  sorted := by
    refine sortOn_sorted (fun _ => 0xFFFFFFFF) (fun s v hv => ?_) fun _ _ _ _ => Int.le_refl _
    obtain ⟨r, o, -, rfl⟩ := exists_output (mem_of_getElem? hv)
    rfl
  slots s v hv := by
    have hlt := (List.getElem?_eq_some_iff.mp hv).1
    obtain ⟨r, o, -, rfl⟩ := exists_output (List.mem_of_getElem? hv)
    change (if (_ == 1) = true then Value.int 0 else .int s) = _
    split
    next hone =>
      have : s = 0 := by rw [beq_iff_eq] at hone; omega
      simp [this]
    · rfl
  links v hv := by
    obtain ⟨s, o, -, rfl⟩ := exists_output hv
    exact .inr ⟨_, rfl⟩

theorem isOrdinaryNode_record : IsOrdinaryNode nodesInfo (n.record ws order next) where
  type := ⟨n.type, rfl, h.ordinary n hn⟩
  inputs v hv := by
    obtain ⟨k, i, hi, rfl⟩ := mem_inputsOf_record.mp hv
    change (i.type.asRecords == .str "*") = false
    rw [Value.asRecords_beq_str]
    exact (of_mem_links h.connected hn (mem_of_getElem? hi)).2.2.1
  outputs v hv := by
    obtain ⟨s, o, ho, rfl⟩ := exists_output hv
    obtain ⟨-, -, -, -, -, -, -, -, -, -, -, -, -, -, -, -, htypes⟩ := h.describes hn
    exact (htypes o ho).asRecords_ne_null
  names v hv _ name hname := by
    obtain ⟨s, o, ho, rfl⟩ := exists_output hv
    rw [h.suggestedName_record hn _ _ _ ho] at hname
    exact Except.ok.inj hname ▸ h.outputs n hn o ho
  widgets arguments harguments entry hentry := by
    have hplain := isPlain_of_mem_widgets h.connected hn
    unfold widgetArguments at harguments
    simp only [field_widgets_record hplain, widgetValues, ok_bind] at harguments
    obtain rfl := Except.ok.inj harguments
    obtain ⟨widget, hwidget, rfl⟩ := mem_map.mp hentry
    exact unmarked_ofValue (hplain widget hwidget)

theorem isWritable_record : IsWritable nodesInfo (n.record ws order next) where
  choice := by
    have htype : (n.record ws order next).field "type" = .ok (.str n.type) := rfl
    have hinputs : (n.record ws order next).field? "inputs" =
      some (.list (inputsOf (n.record ws order next))) := rfl
    unfold choiceOfNode widgetsOfNode
    simp only [field_widgets_record (isPlain_of_mem_widgets h.connected hn), hinputs, htype, widgetValues,
      ok_bind, choice?_of_isOrdinary (h.ordinary n hn)]
  widgets := by
    unfold widgetArguments
    simp only [field_widgets_record (isPlain_of_mem_widgets h.connected hn), widgetValues, ok_bind]
    exact ⟨_, rfl⟩
  declared := ⟨_, positional_of_describes (h.describes hn) (h.ordinary n hn) _ _⟩
  inputs v hv := by
    obtain ⟨k, i, hi, rfl⟩ := mem_inputsOf_record.mp hv
    exact ⟨_, _, _, rfl, rfl, rfl⟩
  outputs := rfl
  names v hv := by
    obtain ⟨s, o, ho, rfl⟩ := exists_output hv
    exact ⟨_, h.suggestedName_record hn ws order next ho _⟩

omit hn in
theorem direct_sheetOf : (sheetOf nodes).Direct nodesInfo := by
  have hplain : ∀ x ∈ (sheetOf nodes).nodes, ¬ Reroutes x.2 := by
    intro x hx
    obtain ⟨done, n, rest, hsplit, rfl⟩ := mem_sheetOf.mp hx
    rintro ⟨type, htype, heq⟩
    obtain rfl : n.type = type := Value.str.inj heq
    exact h.ordinary n (hsplit ▸ by simp) (by simp [specialTypes, htype])
  refine ⟨⟨keyed_sheetOf h.ids h.connected, fun x hx => ?_, fun x hx hreroute => absurd hreroute (hplain x hx),
    fun x hx _ => ?_, fun x hx v hv link hlink => ?_, fun e he => ?_, fun x hcycle => ?_⟩, hplain,
    fun x hx v hv w hw link hv' hw' => ?_, fun e he => ?_, fun x hx => ?_⟩
  · obtain ⟨done, n, rest, hsplit, rfl⟩ := mem_sheetOf.mp hx
    exact h.inOrder_record (hsplit ▸ by simp) _ _ _
  · obtain ⟨done, n, rest, hsplit, rfl⟩ := mem_sheetOf.mp hx
    exact h.isOrdinaryNode_record (hsplit ▸ by simp) _ _ _
  · obtain ⟨done, n, rest, hsplit, rfl⟩ := mem_sheetOf.mp hx
    obtain ⟨k, i, hi, rfl⟩ := mem_inputsOf_record.mp hv
    obtain rfl := some.inj hlink
    exact ⟨_, edge_mem_edgesOf (hsplit ▸ getElem?_wires done rest hi), rfl, rfl⟩
  · obtain ⟨k, w, hw, rfl⟩ := mem_edgesOf he
    obtain ⟨m, hm, hsource, hslot⟩ := sourced_of_connected h.connected w (mem_of_getElem? hw)
    obtain ⟨done, rest, hsplit⟩ := append_of_mem hm
    have hget := getElem?_outputsOf_record (n := m) (wires nodes) done.length (wires done).length w.input.slot
    rw [getElem?_eq_getElem hslot, map_some] at hget
    exact ⟨_, mem_sheetOf.mpr ⟨done, m, rest, hsplit, rfl⟩, congrArg Value.str hsource, w.input.slot, _, rfl,
      hget, mem_map_of_mem (mem_linksFrom.mpr ⟨w, hw, hsource.symm, rfl⟩)⟩
  · refine h.acyclic _ (hcycle.lift (fun v => v.text?.getD "") fun x y hxy => ?_)
    obtain ⟨a, b, rfl, rfl, hab⟩ := promptFeeds_of_feeds hxy
    exact hab
  · obtain ⟨done, n, rest, hsplit, rfl⟩ := mem_sheetOf.mp hx
    obtain ⟨k, i, hi, rfl⟩ := mem_inputsOf_record.mp hv
    obtain ⟨l, j, hj, rfl⟩ := mem_inputsOf_record.mp hw
    have hlink : ((wires done).length + k : Nat) = ((wires done).length + l : Nat) :=
      Int.natCast_inj.mp (Value.int.inj (some.inj (hv'.trans hw'.symm)))
    obtain rfl : k = l := Nat.add_left_cancel hlink
    rw [some.inj (hi.symm.trans hj)]
  · obtain ⟨k, w, -, rfl⟩ := mem_edgesOf he
    exact ⟨_, rfl⟩
  · obtain ⟨done, n, rest, hsplit, rfl⟩ := mem_sheetOf.mp hx
    exact h.isWritable_record (hsplit ▸ by simp) _ _ _

end WellFormed

/-! ## Scripts of prompts -/

def givenEnds : Option (List String) → Value
  | none => .null
  | some ids => .list (ids.map .str)

/-- An end node: one of the given ones, or, without any, a node of which no input names an
output. -/
def IsEnd (nodes : List PromptNode) : Option (List String) → String → Prop
  | none, id => id ∈ nodes.map PromptNode.id ∧ ∀ y, ¬ PromptFeeds nodes id y
  | some ids, id => id ∈ ids

/-- The statement of a node of the prompt is its call, and reads each linked input from the variable
that was last written for the output that the input names. -/
def Contribution.Follows (nodes : List PromptNode) (earlier : List Contribution) (c : Contribution) :
    Prop :=
  c.IsCall ∧ ∃ n ∈ nodes, c.node = .str n.id ∧ ∀ (p : Nat) name u (slot : Nat),
    n.signature.names[p]? = some name → (name, .list [.str u, .int slot]) ∈ n.inputs →
      ∃ x, x ≠ "_" ∧ c.targets.arguments[p]?.bind Argument.name? = some x ∧
        LastWritten earlier x (.str u) slot

section Scripts

variable {nodesInfo prompt : Value} {nodes : List PromptNode}

theorem map_fst_of_reads {entries : List (String × Value)}
    (h : Reads nodesInfo (.dict entries) nodes) : entries.map Prod.fst = nodes.map PromptNode.id := by
  obtain ⟨entries', heq, hentries⟩ := h
  rw [Value.dict.inj heq]
  clear heq
  induction hentries with
  | nil => rfl
  | cons hentry _ ih => rw [map_cons, map_cons, hentry.1, ih]

theorem openWorkflow_of_wellFormed (h : WellFormed nodesInfo prompt nodes) :
    (openWorkflow prompt nodesInfo).2 = .ok ⟨nodesInfo, (sheetOf nodes).graph⟩ := by
  obtain ⟨entries, rfl, -⟩ := h.reads
  have hversion : (Value.dict entries).containsText "version" = .ok false := by
    have hnone : Value.lookup "version" entries = none := by
      rw [Value.lookup_eq_find?, Table.find?_eq_none_iff, map_fst_of_reads h.reads]
      exact h.unversioned
    simp [Value.containsText, Value.bare, Value.hasKey, hnone]
  have hdocument := ofPrompt_eq h.reads h.ids h.connected
  have hfield (nodes : List DraftNode) (links : List DraftLink) :
    (documentOfParts nodes links).asRecords.field "version" = .ok version := rfl
  unfold openWorkflow versionedDocument documentOf
  simp only [ok_bind, hversion, hdocument, hfield, Bool.false_eq_true, if_false,
    (keyed_sheetOf h.ids h.connected).ofDocument_eq (isOf_sheetOf nodes)]
  rfl

theorem resolveEnds_givenEnds (h : WellFormed nodesInfo prompt nodes) {ends : Option (List String)}
    (hends : ∀ ids, ends = some ids → ∀ id ∈ ids, id ∈ nodes.map PromptNode.id) :
    Transpiler.resolveEnds ⟨nodesInfo, (sheetOf nodes).graph⟩ (givenEnds ends) =
      .ok ("", ends.map fun ids => .list (ids.map .str)) := by
  cases ends with
  | none => rfl
  | some ids =>
    cases ids with
    | nil => rfl
    | cons id rest =>
      obtain ⟨n, hn, rfl⟩ := mem_map.mp (hends _ rfl id mem_cons_self)
      obtain ⟨done, rest', hsplit⟩ := append_of_mem hn
      have hvertex := (keyed_sheetOf h.ids h.connected).vertex?_graph
        (mem_sheetOf.mpr ⟨done, n, rest', hsplit, rfl⟩)
      have hhas : (sheetOf nodes).graph.hasVertex (.str n.id) = .ok true := by
        simp [Graph.hasVertex, Value.hashable, hvertex]
      have hlength : (Value.list ((n.id :: rest).map .str)).length = .ok (rest.length + 1) := by
        simp [Value.length, Value.iterate, Value.bare, Except.map]
      have hfirst : (Value.list ((n.id :: rest).map .str)).item (.int 0) = .ok (.str n.id) :=
        Value.item_list_int (i := 0) rfl
      unfold Transpiler.resolveEnds givenEnds
      simp only [hlength, hfirst, ok_bind, hhas]
      rfl

theorem mem_sinks_sheetOf {v : Value} : v ∈ (sheetOf nodes).graph.sinks.map Vertex.id ↔
    ∃ id, v = .str id ∧ IsEnd nodes none id := by
  constructor
  · intro hv
    obtain ⟨x, hx, rfl⟩ := mem_map.mp hv
    obtain ⟨hx, hsink⟩ := mem_filter.mp hx
    obtain ⟨y, hy, rfl⟩ := mem_map.mp hx
    obtain ⟨done, n, rest, hsplit, rfl⟩ := mem_sheetOf.mp hy
    refine ⟨n.id, rfl, mem_map_of_mem (hsplit ▸ by simp), fun y hfeeds => ?_⟩
    rw [Bool.not_eq_true', List.any_eq_false] at hsink
    obtain ⟨m, hm, -, i, hi, hsource⟩ := hfeeds
    obtain ⟨done', rest', hsplit'⟩ := append_of_mem hm
    obtain ⟨k, hk⟩ := mem_iff_getElem?.mp hi
    refine hsink _ (edge_mem_edgesOf (hsplit' ▸ getElem?_wires done' rest' hk)) ?_
    change (Value.str i.source == .str n.id) = true
    rw [hsource, Value.str_beq_str, beq_self_eq_true]
  · rintro ⟨id, rfl, hid, hnone⟩
    obtain ⟨n, hn, rfl⟩ := mem_map.mp hid
    obtain ⟨done, rest, hsplit⟩ := append_of_mem hn
    refine mem_map.mpr ⟨_, mem_filter.mpr
      ⟨mem_map_of_mem (mem_sheetOf.mpr ⟨done, n, rest, hsplit, rfl⟩), ?_⟩, rfl⟩
    rw [Bool.not_eq_true', List.any_eq_false]
    intro e he heq
    obtain ⟨a, b, hsource, htarget, hfeeds⟩ := promptFeeds_of_feeds ⟨e, he, rfl, rfl⟩
    rw [hsource] at heq
    obtain rfl : a = n.id := by simpa [Graph.vertexOf] using heq
    exact hnone b hfeeds

theorem endsOf_sheetOf {ends : Option (List String)}
    (hends : ∀ ids, ends = some ids → ∀ id ∈ ids, id ∈ nodes.map PromptNode.id) :
    ∃ ids, endsOf (sheetOf nodes).graph (ends.map fun ids => .list (ids.map .str)) = .ok ids ∧
      (∀ id ∈ ids, id ∈ (sheetOf nodes).nodes.map Prod.fst) ∧
      ∀ v, v ∈ ids ↔ ∃ id, v = .str id ∧ IsEnd nodes ends id := by
  have hfst : (sheetOf nodes).nodes.map Prod.fst = nodes.map fun n => .str n.id :=
    map_fst_recordsFrom (wires nodes) 0 0 nodes
  have hknown {id : String} (hid : id ∈ nodes.map PromptNode.id) :
      .str id ∈ (sheetOf nodes).nodes.map Prod.fst := by
    obtain ⟨n, hn, rfl⟩ := mem_map.mp hid
    exact hfst ▸ mem_map.mpr ⟨n, hn, rfl⟩
  cases ends with
  | some ids =>
    refine ⟨ids.map .str, rfl, fun v hv => ?_, fun v => ?_⟩
    · obtain ⟨id, hid, rfl⟩ := mem_map.mp hv
      exact hknown (hends ids rfl id hid)
    · simp [IsEnd, eq_comm, and_comm]
  | none =>
    obtain ⟨ids, hids⟩ := @endNodes_ok (sheetOf nodes).graph fun v hv => by
      obtain ⟨x, hx, rfl⟩ := mem_map.mp (mem_of_mem_filter hv)
      obtain ⟨done, n, rest, -, rfl⟩ := mem_sheetOf.mp hx
      exact ⟨.int (0 + done.length * 150 + 0), rfl, rfl⟩
    have hmem (v : Value) : v ∈ ids ↔ ∃ id, v = .str id ∧ IsEnd nodes none id :=
      (perm_of_endNodes hids).mem_iff.trans mem_sinks_sheetOf
    refine ⟨ids, hids, fun v hv => ?_, hmem⟩
    obtain ⟨id, rfl, hid, -⟩ := (hmem v).mp hv
    exact hknown hid

theorem follows_of_reads (h : WellFormed nodesInfo prompt nodes) {cs earlier later : List Contribution}
    {c : Contribution} (hcs : (sheetOf nodes).Statements nodesInfo cs) (hsplit : cs = earlier ++ c :: later) :
    c.Follows nodes earlier := by
  refine ⟨h.direct_sheetOf.isCall hcs (hsplit ▸ by simp), ?_⟩
  obtain ⟨x, hx, hc⟩ := hcs.contributes earlier c later hsplit
  have hid := hc.node.symm
  obtain ⟨done, n, rest, hn, rfl⟩ := mem_sheetOf.mp hx
  have hmem : n ∈ nodes := hn ▸ by simp
  refine ⟨n, hmem, hid.symm, fun p name u slot hp hinput => ?_⟩
  obtain ⟨k, hk⟩ := mem_iff_getElem?.mp
    (mem_filterMap.mpr ⟨_, hinput, rfl⟩ : PromptInput.mk name (n.typeOf name) u slot ∈ n.links)
  obtain ⟨m, hm, hfrom⟩ := exists_from_sheetOf h.connected hn hk
  rw [← hm]
  refine h.direct_sheetOf.reads hcs hsplit hx hid
    ⟨mem_inputsOf_record.mpr ⟨k, _, hk, rfl⟩, rfl, _, name, positional_of_describes (h.describes hmem)
      (h.ordinary n hmem) _ _, ?_, rfl⟩ hfrom
  rw [getElem?_map, hp]
  rfl

theorem mem_of_feeds (h : WellFormed nodesInfo prompt nodes) {order : List Value}
    (horder : (sheetOf nodes).IsOrder order) {a b : String} (hfeeds : PromptFeeds nodes a b)
    (hb : .str b ∈ order) : .str a ∈ order := by
  obtain ⟨n, hn, rfl, i, hi, rfl⟩ := hfeeds
  obtain ⟨earlier, later, hsplit⟩ := append_of_mem hb
  obtain ⟨done, rest, hn⟩ := append_of_mem hn
  obtain ⟨k, hk⟩ := mem_iff_getElem?.mp hi
  obtain ⟨m, hm, hfrom⟩ := exists_from_sheetOf h.connected hn hk
  rw [hsplit, ← hm]
  exact mem_append_left _ (horder.sorted earlier _ later hsplit _
    (mem_sheetOf.mpr ⟨done, n, rest, hn, rfl⟩) rfl _ (mem_inputsOf_record.mpr ⟨k, i, hk, rfl⟩) _ rfl m i.slot
    hfrom)

/-- The script of a prompt has a statement for each node that the end nodes need, and each of them
reads its linked inputs from the outputs that they name. -/
theorem script_of_wellFormed (h : WellFormed nodesInfo prompt nodes) {ends : Option (List String)}
    (hends : ∀ ids, ends = some ids → ∀ id ∈ ids, id ∈ nodes.map PromptNode.id) :
    ∃ t cs, (openWorkflow prompt nodesInfo).2 = .ok t ∧
      t.contributionsFor (givenEnds ends) = .ok cs ∧
      (∀ standalone, (t.script (givenEnds ends) standalone).1.script =
        .ok (Transpiler.textOf standalone cs)) ∧
      (cs.map Contribution.node).Nodup ∧
      (∀ id, .str id ∈ cs.map Contribution.node ↔
        ∃ e, IsEnd nodes ends e ∧ ReflTransGen (PromptFeeds nodes) id e) ∧
      ∀ earlier c later, cs = earlier ++ c :: later → c.Follows nodes earlier := by
  obtain ⟨ids, hids, hknown, hmem⟩ := endsOf_sheetOf hends
  obtain ⟨cs, hcs, hstatements, horder, hall, hneeded⟩ :=
    h.direct_sheetOf.exists_contributions hids hknown
  have hfor : Transpiler.contributionsFor ⟨nodesInfo, (sheetOf nodes).graph⟩ (givenEnds ends) = .ok cs := by
    unfold Transpiler.contributionsFor
    rw [resolveEnds_givenEnds h hends, ok_bind]
    exact hcs
  refine ⟨_, cs, openWorkflow_of_wellFormed h, hfor, fun standalone => ?_, horder.nodup, fun id => ?_,
    fun earlier c later hsplit => follows_of_reads h hstatements hsplit⟩
  · rw [Transpiler.script_eq, hfor]
    rfl
  · constructor
    · intro hid
      obtain ⟨v, hv, hpath⟩ := hneeded _ hid
      obtain ⟨e, rfl, he⟩ := (hmem v).mp hv
      refine ⟨e, he, hpath.lift (fun v => v.text?.getD "") fun x y hxy => ?_⟩
      obtain ⟨a, b, rfl, rfl, hab⟩ := promptFeeds_of_feeds hxy
      exact hab
    · rintro ⟨e, he, hpath⟩
      induction hpath using ReflTransGen.head_induction_on with
      | refl => exact hall _ ((hmem _).mpr ⟨e, rfl, he⟩)
      | head hfeeds _ ih => exact mem_of_feeds h horder hfeeds ih

def imageType (inputs : List String) (outputs : Nat) : Value :=
  let image : Value := .list [.str "IMAGE"]
  .dict [("input", .dict [("required", .dict (inputs.map fun name => (name, image)))]),
    ("output", .list (List.replicate outputs (.str "IMAGE"))),
    ("output_name", .list (List.replicate outputs (.str "IMAGE")))]

def imageTypes : Value :=
  .dict [("Load", imageType [] 1), ("Blur", imageType ["image"] 1), ("Pair", imageType ["a", "b"] 0)]

def imageNode (id type : String) (links : List (String × String)) (outputs : Nat) : PromptNode where
  id := id
  type := type
  inputs := links.map fun (name, source) => (name, .list [.str source, .int 0])
  signature := ⟨links.map fun (name, _) => (name, .list [.str "IMAGE"]), [],
    List.replicate outputs ("IMAGE", .str "IMAGE")⟩

def blurredNodes : List PromptNode :=
  [imageNode "pair" "Pair" [("a", "blur2"), ("b", "load")] 0, imageNode "blur2" "Blur" [("image", "blur")] 1,
    imageNode "blur" "Blur" [("image", "load")] 1, imageNode "load" "Load" [] 1]

def blurredPrompt : Value :=
  .dict (blurredNodes.map fun n =>
    (n.id, .dict [("inputs", .dict n.inputs), ("class_type", .str n.type)]))

theorem wellFormed_blurredPrompt : WellFormed imageTypes blurredPrompt blurredNodes := by
  let place (id : String) : Nat := (blurredNodes.map PromptNode.id).idxOf id
  have hplace : ∀ n ∈ blurredNodes, ∀ i ∈ n.links, place n.id < place i.source := by decide
  have hlater : PromptFeeds blurredNodes ≤ Function.onFun (· > ·) place := by
    rintro x y ⟨n, hn, rfl, i, hi, rfl⟩
    exact hplace n hn i hi
  have hdescribes : ∀ n ∈ blurredNodes, Describes imageTypes n.type n.signature := by
    simp only [blurredNodes, forall_mem_cons, not_mem_nil, false_imp_iff, implies_true,
      and_true]
    refine ⟨?_, ?_, ?_, ?_⟩
    all_goals
      exact ⟨_, _, _, _, _, _, rfl, rfl, rfl, .inl rfl, .inr ⟨rfl, .inl rfl⟩, rfl, .inl rfl, rfl,
        .inl rfl, prefix_rfl, by simp [imageNode, IsType]⟩
  have hlinks : ∀ n ∈ blurredNodes, ∀ entry ∈ n.inputs, n.Links blurredNodes entry.1 entry.2 := by
    simp only [blurredNodes, imageNode, forall_mem_cons, not_mem_nil, false_imp_iff,
      implies_true, and_true, map_cons, map_nil]
    refine ⟨⟨?_, ?_⟩, ?_, ?_⟩
    · exact ⟨_, .tail _ (.head _), 0, rfl, by decide, _, _, rfl, rfl, rfl⟩
    · exact ⟨_, .tail _ (.tail _ (.tail _ (.head _))), 0, rfl, by decide, _, _, rfl, rfl, rfl⟩
    · exact ⟨_, .tail _ (.tail _ (.head _)), 0, rfl, by decide, _, _, rfl, rfl, rfl⟩
    · exact ⟨_, .tail _ (.tail _ (.tail _ (.head _))), 0, rfl, by decide, _, _, rfl, rfl, rfl⟩
  refine ⟨⟨_, rfl, ?_⟩, by decide, by decide, by decide,
    fun n hn entry hentry => .inr (hlinks n hn entry hentry), fun x hcycle => ?_, by decide, by decide⟩
  · rw [List.forall₂_map_left_iff, List.forall₂_same]
    exact fun n hn => ⟨rfl, rfl, rfl, hdescribes n hn⟩
  · have hloop := hcycle.lift place hlater
    rw [transGen_eq_self] at hloop
    exact lt_irrefl _ hloop

/-- Only the second blur takes over the variable of its input; the image itself is read once more
afterwards. -/
theorem script_of_wellFormed_blurredPrompt :
    WellFormed imageTypes blurredPrompt blurredNodes ∧
    ∃ t cs, (openWorkflow blurredPrompt imageTypes).2 = .ok t ∧
      t.contributionsFor .null = .ok cs ∧
      Transpiler.textOf false cs =
        "image = Load()\nimage2 = Blur(image)\nimage2 = Blur(image2)\nPair(image2, image)\n" ∧
      ∀ earlier c later, cs = earlier ++ c :: later → c.Follows blurredNodes earlier := by
  obtain ⟨t, cs, ht, hcs, hscript, -, -, hfollows⟩ := script_of_wellFormed wellFormed_blurredPrompt
    fun ids h => absurd h (Option.some_ne_none ids).symm
  refine ⟨wellFormed_blurredPrompt, t, cs, ht, hcs, ?_, hfollows⟩
  have htext : ((openWorkflow blurredPrompt imageTypes).2 >>= fun t =>
      (t.script .null false).1.script).toOption =
        some "image = Load()\nimage2 = Blur(image)\nimage2 = Blur(image2)\nPair(image2, image)\n" := by
    decide +kernel
  rw [ht, ok_bind, toOption_eq_some_iff] at htext
  exact Except.ok.inj ((hscript false).symm.trans htext)

end Scripts

end Workflow

end Flowscript
