import Flowscript.Proofs.Workflow.Moves
import Flowscript.Proofs.Workflow.Rerouting
import Flowscript.Proofs.Workflow.Slots
import Flowscript.Proofs.Workflow.Steady

/-!
# Links and targets

A link carries a variable from the statement of the node where it starts to the statements of the
nodes where it ends. What these receive is what was recorded for the slot of the link. The targets of
the statement are in the order in which the outputs are sorted, so they agree with the slots if
sorting leaves the used outputs where they are.
-/

namespace Flowscript.Workflow

open List Option

variable {id : Value} {c : Contribution} {ids : List Value} {cs : List Contribution}

open Relation

variable {d d' : Draft} {nodesInfo : Value}

/-! ## What links carry -/

def Graph.heldAt (g : Graph) (id slot : Value) : Option String :=
  ((g.vertex? id).bind Vertex.outputIds).bind (Table.find? slot)

theorem name?_of_linkedArgument {g : Graph} {input link : Value} {a : Argument} {e : Edge}
    (h : linkedArgument g input link = .ok a) (he : g.endOf link = .ok e) :
    a.name? = g.heldAt e.source e.sourceSlot := by
  obtain ⟨e', v, he', hv, hcases⟩ := linkedArgument_cases h
  obtain rfl := Except.ok.inj (he.symm.trans he')
  rw [Graph.heldAt, hv, bind_some]
  obtain ⟨hnone, type, rfl⟩ | ⟨ids, name, type, mayMove, hids, hname, rfl⟩ := hcases
  · rw [hnone]
    rfl
  · rw [hids]
    exact hname.symm

theorem Graph.heldAt_ofInputs (g : Graph) (id other slot : Value) (inputs : Option (List Value)) :
    (g.modifyVertex id (Mark.ofInputs inputs).apply).heldAt other slot = g.heldAt other slot := by
  unfold heldAt
  rw [vertex?_modifyVertex g id other (Mark.id_apply _)]
  cases g.vertex? other with
  | none => rfl
  | some x =>
    rw [map_some, bind_some, bind_some]
    split <;> rfl

namespace Emission.Gives

variable {e : Emission} {id : Value} {c : Contribution} {names names' : List String} {g : Graph}

theorem targets_eq (h : e.Gives nodesInfo id g names c names') : c.targets = e.targets :=
  (contribute_spec h.contribute).2.1

theorem receives (h : e.Gives nodesInfo id g names c names')
    (hnames : ∀ i ∈ inputsOf e.node, ∀ j ∈ inputsOf e.node, linkNumber? i ≠ none →
      linkNumber? j ≠ none → nameOf? i = nameOf? j → i = j)
    (hlinks : ∀ o ∈ outputsOf e.node, ListsLinks o) {p : Nat} {input link : Value}
    (hinput : ArgumentAt nodesInfo e.node p input link) {edge : Edge} (hedge : g.endOf link = .ok edge) :
    ∃ a, c.targets.arguments[p]? = some a ∧ a.name? = g.heldAt edge.source edge.sourceSlot := by
  obtain ⟨declared, name, hdeclared, hp, hname⟩ := hinput.declared
  obtain ⟨a, ha, hfind⟩ := (find?_of_linkedArguments h.linked fun i hi j hj =>
    hnames i (h.inputs.perm.mem_iff.mp hi) j (h.inputs.perm.mem_iff.mp hj)).1 input
    (h.inputs.perm.mem_iff.mpr hinput.mem) link name hinput.link hname
  have harguments := h.arguments
  rw [positional_eq, ← typeOf_of_field h.type, hdeclared] at harguments
  have hargument : e.arguments[p]? = some a := by
    rw [← Except.ok.inj harguments, getElem?_map, hp, map_some, bind_some, hfind]
    rfl
  -- an output may take the variable over, but the argument keeps its name
  obtain ⟨hkept, -⟩ := of_run_assignOutputs_records hlinks (h.targets g)
  obtain ⟨b, hb, hkeep⟩ := hkept.symm.exists_getElem? hargument
  refine ⟨b, h.targets_eq ▸ hb, ?_⟩
  rw [← Argument.name?_keep, hkeep, Argument.name?_keep, name?_of_linkedArgument ha hedge,
    Graph.heldAt_ofInputs]

theorem heldAt (h : e.Gives nodesInfo id d.graph d.names c d'.names)
    (hemit : (emit nodesInfo id).run d = (.ok c, d')) {x : Vertex} (hx : d.graph.vertex? id = some x)
    (hfresh : x.outputIds = none) (hlinks : ∀ o ∈ outputsOf e.node, ListsLinks o) :
    e.targets.names.length = (outputsOf e.node).length ∧
      ∃ sorted, sortOn (fun o => .ok (placeOfOutput o)) (outputsOf e.node) = .ok sorted ∧
        (∀ entry ∈ sorted.zip e.targets.names, linksOf entry.1 = [] → entry.2 = "_") ∧
        ∀ s : Nat, d'.graph.heldAt id (.int s) = heldIn sorted e.targets.names s := by
  obtain ⟨-, hlength, sorted, hsorted, hblank, hids⟩ := of_run_assignOutputs_records hlinks
    (h.targets (d.graph.modifyVertex id (Mark.ofInputs e.mark.inputs).apply))
  refine ⟨hlength, sorted, hsorted, hblank, fun s => ?_⟩
  have hgraph : d'.graph = (d.graph.modifyVertex id (Mark.ofInputs e.mark.inputs).apply).modifyVertex id
      (Mark.mk none e.mark.outputs e.mark.recorded).apply := by
    rw [h.graph_eq hemit, Graph.modifyVertex_modifyVertex d.graph id _ _ (Mark.id_apply _),
      Mark.apply_comp_ofInputs]
  have hold : ((d.graph.modifyVertex id (Mark.ofInputs e.mark.inputs).apply).vertex? id).map
      Vertex.outputIds = some none := by
    rw [outputIds_modifyVertex d.graph id (Mark.id_apply _), hx, ← hfresh]
    rfl
  obtain ⟨y, hy, hyfresh⟩ := map_eq_some_iff.mp hold
  rw [hy, map_some, hyfresh] at hids
  obtain ⟨z, hz, hzids⟩ := map_eq_some_iff.mp hids
  unfold Graph.heldAt heldIn
  rw [hgraph, hz, bind_some, hzids]

end Emission.Gives

/-! ## Other vertices -/

/-- Statements of these nodes make this of a graph: links and all other vertices are as before. -/
structure Graph.Spares (ids : List Value) (g g' : Graph) : Prop where
  distinct : g'.Distinct
  endOf : ∀ link, g'.endOf link = g.endOf link
  vertex? : ∀ id, id.IsId → id ∉ ids → g'.vertex? id = g.vertex? id

namespace Graph.Spares

variable {g g' g'' : Graph} {ids more : List Value}

theorem refl (h : g.Distinct) : Spares [] g g := ⟨h, fun _ => rfl, fun _ _ _ => rfl⟩

theorem trans (h : Spares ids g g') (h' : Spares more g' g'') : Spares (ids ++ more) g g'' where
  distinct := h'.distinct
  endOf link := (h'.endOf link).trans (h.endOf link)
  vertex? id hid hnot := by
    rw [mem_append, not_or] at hnot
    exact (h'.vertex? id hid hnot.2).trans (h.vertex? id hid hnot.1)

theorem heldAt (h : Spares ids g g') (hid : id.IsId) (hnot : id ∉ ids) (slot : Value) :
    g'.heldAt id slot = g.heldAt id slot := by
  unfold Graph.heldAt
  rw [h.vertex? id hid hnot]

end Graph.Spares

theorem node_of_run_emit (h : (emit nodesInfo id).run d = (.ok c, d')) :
    c.node = id := by
  obtain ⟨e, he⟩ := exists_gives h
  exact (contribute_spec he.contribute).1

theorem spares_emit (hd : d.graph.Distinct) (hid : id.IsId) (h : (emit nodesInfo id).run d = (.ok c, d')) :
    d.graph.Spares [id] d'.graph := by
  obtain ⟨e, he⟩ := exists_gives h
  rw [he.graph_eq h]
  refine ⟨hd.apply id e.mark, fun _ => rfl, fun other hother hnot => ?_⟩
  refine hd.vertex?_apply_of_ne hid e.mark fun x hx hxid => hnot ?_
  rw [mem_singleton, ← hxid]
  exact ((hd.vertex?_eq_some_iff hother).mp hx).2.symm

theorem spares_emitAll (hd : d.graph.Distinct) (hids : ∀ id ∈ ids, id.IsId)
    (h : (Transpiler.emitAll nodesInfo ids).run d = (.ok cs, d')) :
    cs.map Contribution.node = ids ∧ d.graph.Spares ids d'.graph := by
  induction ids generalizing cs d with
  | nil =>
    obtain ⟨rfl, rfl⟩ := of_run_pure h
    exact ⟨rfl, .refl hd⟩
  | cons id rest ih =>
    obtain ⟨c, d₁, cs', hemit, hrest, rfl⟩ := of_run_emitAll_cons h
    have hfirst := spares_emit hd (hids id mem_cons_self) hemit
    obtain ⟨hnodes, hspares⟩ := ih hfirst.distinct
      (fun id hid => hids id (mem_cons_of_mem _ hid)) hrest
    exact ⟨by rw [map_cons, node_of_run_emit hemit, hnodes], hfirst.trans hspares⟩

theorem of_run_emitAll_nodup {earlier later : List Contribution} (hd : d.graph.Distinct)
    (hids : ∀ id ∈ ids, id.IsId) (hnodup : ids.Nodup)
    (h : (Transpiler.emitAll nodesInfo ids).run d = (.ok cs, d')) (hsplit : cs = earlier ++ c :: later) :
    ∃ before after d₁ d₂, ids = before ++ c.node :: after ∧
      (Transpiler.emitAll nodesInfo before).run d = (.ok earlier, d₁) ∧
      (emit nodesInfo c.node).run d₁ = (.ok c, d₂) ∧
      (Transpiler.emitAll nodesInfo after).run d₂ = (.ok later, d') ∧
      c.node ∉ before ∧ c.node ∉ after ∧ d.graph.Spares before d₁.graph ∧
      d₁.graph.Spares [c.node] d₂.graph := by
  obtain ⟨before, id, after, d₁, d₂, rfl, hbefore, hemit, hafter⟩ := of_run_emitAll_split h hsplit
  obtain rfl := node_of_run_emit hemit
  obtain ⟨-, hspares⟩ := spares_emitAll hd (fun id hid => hids id (mem_append_left _ hid)) hbefore
  have hnew := (nodup_cons.mp (nodup_middle.mp hnodup)).1
  rw [mem_append, not_or] at hnew
  exact ⟨before, after, d₁, d₂, rfl, hbefore, hemit, hafter, hnew.1, hnew.2, hspares,
    spares_emit hspares.distinct (hids _ (by simp)) hemit⟩

theorem mem_links_of_mem_sources {g : Graph} {x y : Value} (h : x ∈ (sources nodesInfo g y).items) :
    ∃ l ∈ g.links, l.source = x := by
  unfold sources at h
  dsimp only at h
  split at h
  · cases h
  · obtain ⟨input, -, hread⟩ := mem_items_readEach h
    obtain ⟨number, l, -, hl, hsource⟩ := of_sourceOf (of_followedSource hread)
    unfold Graph.link at hl
    split at hl
    · cases hl
    split at hl
    next found hfound =>
      obtain rfl := Except.ok.inj hl
      exact ⟨found, mem_of_find?_eq_some hfound, hsource⟩
    · cases hl

def IsPlain (node : Value) : Prop :=
  node.field? "mode" = some (.int 0) ∧ ∃ type, node.field? "type" = some (.str type) ∧ type ∉ passTypes

theorem statement_of_isPlain (h : (emit nodesInfo id).run d = (.ok c, d')) {node : Value}
    (hnode : d.graph.nodeOf id = .ok node) (hplain : IsPlain node) :
    ∃ s, c.statement = some s ∧ s.targets = c.targets.names ∧ (c.line ≠ "" → c.line = s.text) := by
  obtain ⟨hmode, type, htype, hpass⟩ := hplain
  obtain ⟨k, hk, hcontribute⟩ := exists_sketch h
  obtain rfl := Except.ok.inj (hnode.symm.trans hk.node)
  have hkmode : k.mode = .int 0 := Except.ok.inj (hk.mode.symm.trans (field_eq_ok_iff.mpr hmode))
  have hktype : k.type = .str type := Except.ok.inj (hk.type.symm.trans (field_eq_ok_iff.mpr htype))
  rw [contribute_of_not_mem hk (hkmode ▸ rfl) hktype hpass] at hcontribute
  obtain rfl := Except.ok.inj hcontribute
  refine ⟨k.statement, rfl, rfl, fun hne => ?_⟩
  dsimp only at hne ⊢
  split at hne
  · exact absurd rfl hne
  next hmoves => exact if_neg hmoves

/-! ## Sheets -/

namespace Sheet

/-- Nodes and links that name each other: ids and numbers are different, the linked inputs of a node
have different names, the slots of outputs are their positions if they have one, and every link
starts at an output that lists it. -/
structure Coherent (sheet : Sheet) : Prop extends sheet.Keyed where
  names : ∀ n ∈ sheet.nodes, ∀ i ∈ inputsOf n.2, ∀ j ∈ inputsOf n.2, linkNumber? i ≠ none →
    linkNumber? j ≠ none → nameOf? i = nameOf? j → i = j
  links : ∀ n ∈ sheet.nodes, ∀ o ∈ outputsOf n.2, ListsLinks o
  slots : ∀ n ∈ sheet.nodes, SlotsMatch (outputsOf n.2)
  source : ∀ e ∈ sheet.edges, ∃ n ∈ sheet.nodes, n.1 = e.source ∧ ∃ (s : Nat) (o : Value),
    e.sourceSlot = .int s ∧ (outputsOf n.2)[s]? = some o ∧ e.key ∈ linksOf o

/-- Where a link gives an argument of a statement, that is the variable `x`, or none. -/
def Receives (sheet : Sheet) (nodesInfo : Value) (c : Contribution) (link : Value) (x : Option String) :
    Prop :=
  ∀ m ∈ sheet.nodes, m.1 = c.node → ∀ p input, ArgumentAt nodesInfo m.2 p input link →
    ∃ a, c.targets.arguments[p]? = some a ∧ a.name? = x

/-- The targets of a node agree with its slots: what later statements receive for a link is the
target at the slot of the link, and outputs without links have `_` there. -/
structure Aligned (sheet : Sheet) (nodesInfo : Value) (n : Value × Value) (targets : List String)
    (later : List Contribution) : Prop where
  carried : ∀ link slot, sheet.From link n slot → ∃ x, targets[slot]? = some x ∧
    ∀ c ∈ later, sheet.Receives nodesInfo c link (some x)
  unused : ∀ (slot : Nat) o, (outputsOf n.2)[slot]? = some o → linksOf o = [] →
    targets[slot]? = some "_"

def Heard (sheet : Sheet) (nodesInfo : Value) (n : Value × Value) (later : List Contribution) : Prop :=
  ∀ slot, UsedAt (outputsOf n.2) slot → ∃ link, sheet.From link n slot ∧ ∃ c ∈ later,
    ∃ m ∈ sheet.nodes, m.1 = c.node ∧ ∃ p input, ArgumentAt nodesInfo m.2 p input link

namespace Coherent

variable {sheet : Sheet} (h : sheet.Coherent) {link : Value} {n : Value × Value} {slot : Nat}
  {ids : List Value}

include h

theorem distinct_graph : sheet.graph.Distinct := by
  refine ⟨h.isId_vertex, ?_⟩
  have hids : sheet.graph.vertices.map Vertex.id = sheet.nodes.map Prod.fst := map_map
  rw [hids]
  exact h.ids_nodup

theorem exists_edge (hfrom : sheet.From link n slot) :
    ∃ e, sheet.graph.endOf link = .ok e ∧ e.source = n.1 ∧ e.sourceSlot = .int slot := by
  obtain ⟨e, he, rfl, hsource, hslot⟩ := hfrom.edge
  exact ⟨e, h.endOf_graph he, hsource, hslot⟩

theorem exists_output (hfrom : sheet.From link n slot) :
    ∃ o, (outputsOf n.2)[slot]? = some o ∧ linksOf o ≠ [] := by
  obtain ⟨e, he, rfl, hsource, hslot⟩ := hfrom.edge
  obtain ⟨m, hm, hmsource, s, o, hs, ho, hlinks⟩ := h.source e he
  obtain rfl : m = n := inj_on_of_nodup_map h.ids_nodup hm hfrom.mem (hmsource.trans hsource)
  obtain rfl : slot = s := Int.natCast_inj.mp (Value.int.inj (hslot.symm.trans hs))
  exact ⟨o, ho, ne_nil_of_mem hlinks⟩

theorem node_eq (hn : n ∈ sheet.nodes) (hnew : n.1 ∉ ids) (hspares : sheet.graph.Spares ids d.graph)
    {node : Value} (hnode : d.graph.nodeOf n.1 = .ok node) :
    d.graph.vertex? n.1 = some (Graph.vertexOf n) ∧ node = n.2 := by
  have hvertex : d.graph.vertex? n.1 = some (Graph.vertexOf n) :=
    (hspares.vertex? n.1 (h.ids n hn) hnew).trans (h.vertex?_graph hn)
  obtain ⟨-, x, hx, hxnode⟩ := Graph.nodeOf_eq_ok_iff.mp hnode
  obtain rfl := some.inj (hvertex.symm.trans hx)
  exact ⟨hvertex, (some.inj hxnode).symm⟩

theorem receives (hspares : sheet.graph.Spares ids d.graph) (hnew : c.node ∉ ids)
    (hemit : (emit nodesInfo c.node).run d = (.ok c, d')) (hfrom : sheet.From link n slot) :
    sheet.Receives nodesInfo c link (d.graph.heldAt n.1 (.int slot)) := by
  intro m hm hid p input hargument
  rw [← hid] at hnew hemit
  obtain ⟨e, he⟩ := exists_gives hemit
  obtain ⟨-, hnode⟩ := h.node_eq hm hnew hspares he.node
  obtain ⟨edge, hedge, hsource, hslot⟩ := h.exists_edge hfrom
  rw [← hspares.endOf] at hedge
  rw [← hnode] at hargument
  rw [← hsource, ← hslot]
  exact he.receives (hnode ▸ h.names m hm) (hnode ▸ h.links m hm) hargument hedge

theorem heldAt_eq_none (hn : n ∈ sheet.nodes) (hnew : n.1 ∉ ids) (hspares : sheet.graph.Spares ids d.graph)
    (slot : Value) : d.graph.heldAt n.1 slot = none := by
  rw [hspares.heldAt (h.ids n hn) hnew]
  unfold Graph.heldAt
  rw [h.vertex?_graph hn]
  rfl

theorem isId_order {ends : List Value} (hends : ∀ id ∈ ends, id.IsId) :
    ∀ id ∈ (walkFrom nodesInfo sheet.graph ends).order, id.IsId := by
  intro id hid
  rcases mem_order_foldl (fun _ _ => mem_order_visit _) ends hid with hnil | ⟨e, he, hpath⟩
  · cases hnil
  rcases ReflTransGen.cases_head hpath with rfl | ⟨y, hstep, -⟩
  · exact hends id he
  · obtain ⟨l, hl, rfl⟩ := mem_links_of_mem_sources hstep
    obtain ⟨edge, hedge, rfl⟩ := mem_map.mp hl
    exact h.isId_of_mem (h.sources edge hedge)

section Runs

variable {ids : List Value} {cs earlier later : List Contribution} {c : Contribution}
  (hids : ∀ id ∈ ids, id.IsId) (hnodup : ids.Nodup)
  (hrun : (Transpiler.emitAll nodesInfo ids).run ⟨sheet.graph, []⟩ = (.ok cs, d'))
  (hsplit : cs = earlier ++ c :: later) {n : Value × Value} (hn : n ∈ sheet.nodes) (hid : n.1 = c.node)

include hids hnodup hrun hsplit hn hid

theorem receives_none (hfrom : sheet.From link n slot) :
    ∀ c' ∈ earlier ++ [c], sheet.Receives nodesInfo c' link none := by
  obtain ⟨before, after, d₁, d₂, rfl, hbefore, hemit, -, hnew, -, hspares, -⟩ :=
    of_run_emitAll_nodup h.distinct_graph hids hnodup hrun hsplit
  intro c' hc'
  rcases mem_append.mp hc' with hearlier | hself
  · obtain ⟨front, back, hfront⟩ := append_of_mem hearlier
    obtain ⟨first, rest, d₃, d₄, rfl, -, hemit', -, hnew', -, hspares', -⟩ :=
      of_run_emitAll_nodup h.distinct_graph (fun id hid => hids id (mem_append_left _ hid))
        (nodup_append.mp hnodup).1 hbefore hfront
    have hnot : n.1 ∉ first := fun hmem => hnew (hid ▸ mem_append_left _ hmem)
    rw [← h.heldAt_eq_none hn hnot hspares' (.int slot)]
    exact h.receives hspares' hnew' hemit' hfrom
  · obtain rfl := mem_singleton.mp hself
    rw [← h.heldAt_eq_none hn (hid ▸ hnew) hspares (.int slot)]
    exact h.receives hspares hnew hemit hfrom

theorem exists_held : ∃ held : Nat → Option String,
    (∀ link slot, sheet.From link n slot → ∀ c' ∈ later,
      sheet.Receives nodesInfo c' link (held slot)) ∧
      c.targets.names.length = (outputsOf n.2).length ∧
      (Orderly (outputsOf n.2) → LinesUp held (outputsOf n.2) c.targets.names) ∧
      (Discernible (outputsOf n.2) c.targets.names → LinesUp held (outputsOf n.2) c.targets.names →
        Orderly (outputsOf n.2)) := by
  obtain ⟨before, after, d₁, d₂, rfl, -, hemit, hafter, hnew, hlast, hspares, hown⟩ :=
    of_run_emitAll_nodup h.distinct_graph hids hnodup hrun hsplit
  refine ⟨fun slot => d₂.graph.heldAt n.1 (.int slot), fun link slot hfrom c' hc' => ?_, ?_⟩
  · -- what is held stays, since the node has no other statement
    obtain ⟨front, back, hfront⟩ := append_of_mem hc'
    obtain ⟨first, rest, d₃, d₄, rfl, -, hemit', -, -, -, hspares', -⟩ :=
      of_run_emitAll_nodup hown.distinct (fun id hid => hids id (by simp [hid]))
        (nodup_append.mp hnodup).2.1.of_cons hafter hfront
    have hnot : n.1 ∉ first := fun hmem => hlast (hid ▸ mem_append_left _ hmem)
    have hnew' : c'.node ∉ before ++ [c.node] ++ first := by
      have hmiddle : (before ++ [c.node] ++ first ++ c'.node :: rest).Nodup := by simpa using hnodup
      have hout := (nodup_cons.mp (nodup_middle.mp hmiddle)).1
      exact fun hmem => hout (mem_append_left _ hmem)
    dsimp only
    rw [← hspares'.heldAt (h.ids n hn) hnot]
    exact h.receives ((hspares.trans hown).trans hspares') hnew' hemit' hfrom
  · -- nothing was held for the node before, so all that is held are its own targets
    rw [← hid] at hemit hnew
    obtain ⟨e, he⟩ := exists_gives hemit
    obtain ⟨hvertex, hnode⟩ := h.node_eq hn hnew hspares he.node
    obtain ⟨hlength, sorted, hsorted, hblank, hheld⟩ :=
      he.heldAt hemit hvertex rfl (hnode ▸ h.links n hn)
    rw [hnode] at hlength hsorted
    rw [he.targets_eq]
    have hslots := h.slots n hn
    obtain ⟨positions, hsorts, hpositions⟩ := exists_positions (fun p o => placeOfOutput_eq hslots) hsorted
    have hsame : (fun slot : Nat => d₂.graph.heldAt n.1 (.int slot)) = heldIn sorted e.targets.names :=
      funext hheld
    rw [hsame]
    exact ⟨hlength, fun horderly => linesUp_of_stay hslots hsorts hpositions hlength hblank
      ((stay_iff_orderly hslots hsorts).mpr horderly), fun hdiscernible hlines =>
      (stay_iff_orderly hslots hsorts).mp (stay_of_linesUp hslots hsorts hpositions hlength hblank
        (perm_of_sortOn hsorted) hdiscernible hlines)⟩

theorem statement_of_run (hplain : IsPlain n.2) :
    ∃ s, c.statement = some s ∧ s.targets = c.targets.names ∧ (c.line ≠ "" → c.line = s.text) := by
  obtain ⟨before, after, d₁, d₂, rfl, -, hemit, -, hnew, -, hspares, -⟩ :=
    of_run_emitAll_nodup h.distinct_graph hids hnodup hrun hsplit
  rw [← hid] at hemit hnew
  obtain ⟨e, he⟩ := exists_gives hemit
  obtain ⟨-, hnode⟩ := h.node_eq hn hnew hspares he.node
  exact statement_of_isPlain hemit he.node (hnode ▸ hplain)

end Runs

section Alignment

variable {n : Value × Value} {targets : List String} {later : List Contribution}
  {held : Nat → Option String}
  (hheld : ∀ link slot, sheet.From link n slot → ∀ c ∈ later,
    sheet.Receives nodesInfo c link (held slot))

include hheld

theorem aligned_of_linesUp (hlines : LinesUp held (outputsOf n.2) targets) :
    sheet.Aligned nodesInfo n targets later where
  carried link slot hfrom := by
    obtain ⟨o, ho, hne⟩ := h.exists_output hfrom
    obtain ⟨x, hx, -, hsome⟩ := hlines slot o ho
    exact ⟨x, hx, fun c hc => hsome hne ▸ hheld link slot hfrom c hc⟩
  unused slot o ho hnil := by
    obtain ⟨x, hx, hblank, -⟩ := hlines slot o ho
    rw [hx, hblank hnil]

omit h in
theorem linesUp_of_aligned (hheard : sheet.Heard nodesInfo n later)
    (haligned : sheet.Aligned nodesInfo n targets later) : LinesUp held (outputsOf n.2) targets := by
  intro slot o ho
  by_cases hnil : linksOf o = []
  · exact ⟨"_", haligned.unused slot o ho hnil, fun _ => rfl, fun hne => absurd hnil hne⟩
  · obtain ⟨link, hfrom, c, hc, m, hm, hid, p, input, hargument⟩ := hheard slot ⟨o, ho, hnil⟩
    obtain ⟨x, hx, hreceives⟩ := haligned.carried link slot hfrom
    obtain ⟨a, ha, hname⟩ := hreceives c hc m hm hid p input hargument
    obtain ⟨b, hb, hname'⟩ := hheld link slot hfrom c hc m hm hid p input hargument
    obtain rfl := some.inj (ha.symm.trans hb)
    exact ⟨x, hx, fun h => absurd h hnil, fun _ => hname'.symm.trans hname⟩

end Alignment

end Coherent

end Sheet

/-! ## Scripts -/

namespace Transpiler

theorem eq_of_openWorkflow {workflow document : Value} {g : Graph} {t : Transpiler}
    (hdocument : documentOf workflow nodesInfo = .ok document) (hg : Graph.ofDocument document = .ok g)
    (ht : (openWorkflow workflow nodesInfo).2 = .ok t) : t = ⟨nodesInfo, g⟩ := by
  unfold openWorkflow versionedDocument at ht
  rw [hdocument, ok_bind] at ht
  cases hversion : document.field "version" with
  | error e =>
    rw [hversion] at ht
    cases ht
  | ok version =>
    rw [hversion, ok_bind] at ht
    dsimp only at ht
    rw [hg] at ht
    exact (Except.ok.inj ht).symm

/-- In the script of a workflow, the statement of a node that is in use and that no pass is made for
has one target for every output. If no output with links stands on the wrong side of another, then
the targets agree with the slots. Where the targets are discernible and all outputs with links are
heard, they agree only then. Statements that do not come later receive nothing for the links of the
node. -/
theorem targets_line_up {workflow document ends : Value} {standalone : Bool} {sheet : Sheet}
    {t : Transpiler} {text : String} (hdocument : documentOf workflow nodesInfo = .ok document)
    (hsheet : sheet.IsOf document) (h : sheet.Coherent)
    (ht : (openWorkflow workflow nodesInfo).2 = .ok t)
    (hends : ∀ items, ends.iterate = .ok items → ∀ v ∈ items, v.IsId)
    (hscript : (t.script ends standalone).1.script = .ok text) :
    ∃ cs, t.contributionsFor ends = .ok cs ∧ text = textOf standalone cs ∧
      ∀ earlier c later, cs = earlier ++ c :: later → ∀ n ∈ sheet.nodes, n.1 = c.node → IsPlain n.2 →
        ∃ s, c.statement = some s ∧ (c.line ≠ "" → c.line = s.text) ∧
          s.targets.length = (outputsOf n.2).length ∧
          (Orderly (outputsOf n.2) → sheet.Aligned nodesInfo n s.targets later) ∧
          (Discernible (outputsOf n.2) s.targets → sheet.Heard nodesInfo n later →
            sheet.Aligned nodesInfo n s.targets later → Orderly (outputsOf n.2)) ∧
          ∀ link slot, sheet.From link n slot → ∀ c' ∈ earlier ++ [c],
            sheet.Receives nodesInfo c' link none := by
  obtain rfl := eq_of_openWorkflow hdocument (h.ofDocument_eq hsheet) ht
  rw [script_eq] at hscript
  obtain ⟨cs, hcs, rfl⟩ := ok_of_map hscript
  obtain ⟨⟨log, ends'⟩, hresolve, hcontributions⟩ := ok_of_bind hcs
  have hresult := ok_of_orFault hcontributions
  have hfault := fault_of_orFault hcontributions
  obtain ⟨found, hfound, hfoundIds⟩ := exists_endsOf h.isId_vertex hends hresolve hfault
  have hids : ∀ id ∈ (order nodesInfo sheet.graph ends').2.items, id.IsId := by
    rw [order_of_endsOf hfound]
    exact h.isId_order hfoundIds
  have hnodup := nodup_order hids
  have hrun : (emitAll nodesInfo (order nodesInfo sheet.graph ends').2.items).run ⟨sheet.graph, []⟩ =
    (.ok cs, _) := Prod.ext hresult rfl
  refine ⟨cs, hcs, rfl, fun earlier c later hsplit n hn hid hplain => ?_⟩
  obtain ⟨held, hheld, hlength, horderly, hdiscernible⟩ := h.exists_held hids hnodup hrun hsplit hn hid
  obtain ⟨s, hs, htargets, hline⟩ := h.statement_of_run hids hnodup hrun hsplit hn hid hplain
  rw [← htargets] at hlength horderly hdiscernible
  exact ⟨s, hs, hline, hlength, fun hin => h.aligned_of_linesUp hheld (horderly hin),
    fun hdistinct hheard haligned => hdiscernible hdistinct
      (Sheet.Coherent.linesUp_of_aligned hheld hheard haligned),
    fun link slot hfrom => h.receives_none hids hnodup hrun hsplit hn hid hfrom⟩

def maskTypes : Value :=
  let type (inputs : List (String × Value)) (outputs : List Value) : Value :=
    .dict [("input", .dict [("required", .dict inputs)]), ("output", .list outputs),
      ("output_name", .list outputs)]
  .dict [("Load", type [] [.str "IMAGE", .str "MASK"]),
    ("Show", type [("mask", .list [.str "MASK"])] [])]

def imageOutput : Value := .dict [("name", .str "IMAGE"), ("type", .str "IMAGE"), ("links", .null)]

def maskOutput : Value :=
  .dict [("name", .str "MASK"), ("type", .str "MASK"), ("links", .list [.int 1]),
    ("slot_index", .int 1)]

def loadNode : Value × Value := (.int 1, documentNode 1 "Load" [] [imageOutput, maskOutput])

def showNode : Value × Value := (.int 2, documentNode 2 "Show" [linkedInput "mask" "MASK" 1] [])

def maskSheet : Sheet where
  nodes := [listed loadNode, listed showNode]
  edges := [⟨.int 1, .int 2, .int 1, .int 1, .int 0, .str "MASK"⟩]

def maskWorkflow : Value :=
  .dict [("nodes", .list [loadNode.2, showNode.2]), ("links", .list (maskSheet.edges.map Edge.row)),
    ("version", version)]

theorem of_outputsOf_loadNode {slot : Nat} {o : Value}
    (h : (outputsOf (listed loadNode).2)[slot]? = some o) :
    slot = 0 ∧ o = imageOutput.asRecords ∨ slot = 1 ∧ o = maskOutput.asRecords := by
  change [imageOutput.asRecords, maskOutput.asRecords][slot]? = some o at h
  rcases slot with _ | _ | slot
  · exact .inl ⟨rfl, (some.inj h).symm⟩
  · exact .inr ⟨rfl, (some.inj h).symm⟩
  · cases h

theorem forall_maskSheet {P : Value × Value → Prop} :
    (∀ n ∈ maskSheet.nodes, P n) ↔ P (listed loadNode) ∧ P (listed showNode) := by
  simp [maskSheet]

theorem coherent_maskSheet : maskSheet.Coherent where
  ids := forall_maskSheet.mpr ⟨trivial, trivial⟩
  ids_nodup := by simp [maskSheet, listed, loadNode, showNode]
  keys := by simp [maskSheet, Value.IsId]
  keys_nodup := by simp [maskSheet]
  named := forall_maskSheet.mpr ⟨rfl, rfl⟩
  sources := by simp [maskSheet, listed, loadNode]
  targets := by simp [maskSheet, listed, showNode]
  names := by
    refine forall_maskSheet.mpr ⟨fun i hi => absurd hi not_mem_nil, fun i hi j hj _ _ _ => ?_⟩
    rw [mem_singleton.mp hi, mem_singleton.mp hj]
  links := by
    refine forall_maskSheet.mpr ⟨fun o ho => ?_, fun o ho => absurd ho not_mem_nil⟩
    rcases mem_pair.mp ho with rfl | rfl
    · exact .inl rfl
    · exact .inr ⟨_, rfl⟩
  slots := by
    refine forall_maskSheet.mpr ⟨fun p o ho => ?_, fun p o ho => by cases ho⟩
    rcases of_outputsOf_loadNode ho with ⟨rfl, rfl⟩ | ⟨rfl, rfl⟩
    · exact .inl rfl
    · exact .inr rfl
  source := by
    simp only [maskSheet, mem_singleton, forall_eq]
    exact ⟨_, .head _, rfl, 1, _, rfl, rfl, .head _⟩

theorem not_orderly_loadNode : ¬ Orderly (outputsOf (listed loadNode).2) := by
  intro h
  have hle := h 0 1 (by decide) (by decide) (.inr ⟨_, rfl, by decide⟩)
  exact absurd hle (by decide)

theorem heard_loadNode (hc : c.node = .int 2) :
    maskSheet.Heard maskTypes (listed loadNode) [c] := by
  rintro slot ⟨o, ho, hne⟩
  rcases of_outputsOf_loadNode ho with ⟨rfl, rfl⟩ | ⟨rfl, rfl⟩
  · exact absurd rfl hne
  · have hargument : ArgumentAt maskTypes (listed showNode).2 0
        (linkedInput "mask" "MASK" 1).asRecords (.int 1) :=
      ⟨.head _, rfl, [some "mask"], "mask", rfl, rfl, rfl⟩
    exact ⟨.int 1, ⟨.head _, _, .head _, rfl, rfl, rfl⟩, c, mem_singleton_self c,
      listed showNode, .tail _ (.head _), hc.symm, 0, _, hargument⟩

theorem eq_int_of_numberOf {v : Value} {n : Int} (h : numberOf v = n) (hn : n ≠ 0) : v = .int n := by
  cases v with
  | int m => exact congrArg Value.int h
  | _ => exact absurd h.symm hn

/-- The target of the mask stands first, as the output without a slot is put behind it, but its slot
is the second one. -/
theorem targets_line_up_maskWorkflow :
    maskSheet.Coherent ∧
    ∃ t c c', (openWorkflow maskWorkflow maskTypes).2 = .ok t ∧ t.contributionsFor .null = .ok [c, c'] ∧
      textOf false [c, c'] = "mask, _ = Load()\nShow(mask)\n" ∧ c.node = (listed loadNode).1 ∧
      ∃ s, c.statement = some s ∧ s.targets = ["mask", "_"] ∧
        ¬ maskSheet.Aligned maskTypes (listed loadNode) s.targets [c'] := by
  have htext : ((openWorkflow maskWorkflow maskTypes).2 >>= fun t =>
      (t.script .null false).1.script).toOption = some "mask, _ = Load()\nShow(mask)\n" := by
    decide +kernel
  have hnumbers : ((openWorkflow maskWorkflow maskTypes).2 >>= fun t =>
      t.contributionsFor .null).toOption.map (List.map fun c =>
        (numberOf c.node, c.statement.map Statement.targets)) =
          some [(1, some ["mask", "_"]), (2, some [])] := by
    decide +kernel
  have hnull : ∀ items, Value.null.iterate = .ok items → ∀ v ∈ items, v.IsId := by rintro items ⟨⟩
  obtain ⟨t, ht, hscript⟩ := ok_of_bind (toOption_eq_some_iff.mp htext)
  obtain ⟨cs, hcs, hlines, hall⟩ := targets_line_up rfl ⟨rfl, rfl⟩ coherent_maskSheet ht hnull hscript
  rw [ht, ok_bind, hcs] at hnumbers
  obtain ⟨c, rest, rfl, hc, hrest⟩ := List.map_eq_cons_iff.mp (Option.some.inj hnumbers)
  obtain ⟨c', rest, rfl, hc', hnil⟩ := List.map_eq_cons_iff.mp hrest
  obtain rfl := List.map_eq_nil_iff.mp hnil
  obtain ⟨hnode, hstatement⟩ := Prod.mk.inj hc
  have hid : c.node = .int 1 := eq_int_of_numberOf hnode (by decide)
  have hid' : c'.node = .int 2 := eq_int_of_numberOf (Prod.mk.inj hc').1 (by decide)
  obtain ⟨s, hs, -, -, -, honly, -⟩ := hall [] c [c'] rfl (listed loadNode) (.head _) hid.symm
    ⟨rfl, "Load", rfl, by decide⟩
  have htargets : s.targets = ["mask", "_"] := by
    rw [hs] at hstatement
    exact Option.some.inj hstatement
  refine ⟨coherent_maskSheet, t, c, c', ht, hcs, hlines.symm, hid, s, hs, htargets, fun haligned => ?_⟩
  refine not_orderly_loadNode (honly ?_ (heard_loadNode hid') haligned)
  rw [htargets]
  refine ⟨fun i j x hi hj _ => ?_, rfl⟩
  exact (List.getElem?_inj (List.getElem?_eq_some_iff.mp hi).1 (by decide)).mp (hi.trans hj.symm)

end Transpiler

end Flowscript.Workflow
