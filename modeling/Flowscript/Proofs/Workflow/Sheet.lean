import Flowscript.Proofs.Workflow.Graph
import Flowscript.Proofs.Workflow.Holding
import Flowscript.Proofs.Workflow.Traversal

/-!
# Sheets of nodes and links

A sheet is what the document of a workflow lists: nodes with their ids, and links. Nodes that only
pass on a value stand between the others: followed back through them, every link starts at an output
of another node, its root.
-/

namespace Flowscript.Workflow

open List Option

variable {α : Type}

open Relation

/-! ## Arguments and inputs -/

def declaredNames (nodesInfo type : Value) : Except Fault (List (Option String)) :=
  positional nodesInfo type (fun name => some (some name)) none

theorem positional_eq (nodesInfo type : Value) (arg : String → Option α) (absent : α) :
    positional nodesInfo type arg absent =
      (declaredNames nodesInfo type).map (List.map fun name => (name.bind arg).getD absent) := by
  let read : List (Option String) → List α := List.map fun name => (name.bind arg).getD absent
  have hinput (all : List (Option String)) (input : Value) :
      appendInput arg absent (read all) input =
        (appendInput (fun name => some (some name)) none all input).map read := by
    have hname : ((input.text?.bind fun name => some (some name)).getD none) = input.text? := by
      cases input.text? <;> rfl
    unfold appendInput
    split
    · have hread : read (all ++ [input.text?]) = read all ++ read [input.text?] := map_append
      rw [hname, Except.map, hread]
      rfl
    · rfl
  have hgroup (types : Value) (all : List (Option String)) (name : String) :
      appendGroup arg absent types (read all) name =
        (appendGroup (fun name => some (some name)) none types all name).map read := by
    unfold appendGroup
    cases types.get name with
    | error e => rfl
    | ok found =>
      rw [ok_bind, ok_bind]
      split
      · rfl
      · rfl
      next group _ =>
        cases group.iterate with
        | error e => rfl
        | ok items => exact foldlM_map_state read hinput items all
  unfold declaredNames positional
  cases inputTypes nodesInfo type with
  | error e => rfl
  | ok types => exact foldlM_map_state read (hgroup types) NodeInfo.positionalGroups []

/-- The argument at a position of a node's call is that of an input, which has a link. -/
structure ArgumentAt (nodesInfo node : Value) (p : Nat) (input link : Value) : Prop where
  mem : input ∈ inputsOf node
  link : linkNumber? input = some link
  declared : ∃ names name, declaredNames nodesInfo (typeOf node) = .ok names ∧
    names[p]? = some (some name) ∧ nameOf? input = some name

/-! ## Sheets -/

structure Sheet where
  nodes : List (Value × Value)
  edges : List Edge

def Reroutes (node : Value) : Prop := ∃ type ∈ rerouteTypes, typeOf node = .str type

/-- A node as documents have it: it is in use, its inputs are a list of different names, and its
outputs stand at their slots. -/
structure IsNode (node : Value) : Prop where
  record : ∃ fields, node = .record fields
  mode : node.field? "mode" = some (.int 0)
  inputs : node.field? "inputs" = none ∨ ∃ items, node.field? "inputs" = some (.list items)
  names : ∀ i ∈ inputsOf node, ∀ j ∈ inputsOf node, linkNumber? i ≠ none → linkNumber? j ≠ none →
    nameOf? i = nameOf? j → i = j
  slots : ∀ (s : Nat) o, (outputsOf node)[s]? = some o → o.field? "slot_index" = some (.int s)
  links : ∀ o ∈ outputsOf node,
    o.field? "links" = some .null ∨ ∃ links, o.field? "links" = some (.list links)

/-- A node whose outputs stand in the order of their slots, which are their positions. -/
structure InOrder (node : Value) : Prop where
  record : ∃ fields, node = .record fields
  mode : node.field? "mode" = some (.int 0)
  inputs : node.field? "inputs" = none ∨ ∃ items, node.field? "inputs" = some (.list items)
  names : ∀ i ∈ inputsOf node, ∀ j ∈ inputsOf node, linkNumber? i ≠ none → linkNumber? j ≠ none →
    nameOf? i = nameOf? j → i = j
  sorted : sortOn (fun o => .ok (placeOfOutput o)) (outputsOf node) = .ok (outputsOf node)
  slots : ∀ (s : Nat) o, (outputsOf node)[s]? = some o →
    slotOf o ((outputsOf node).length == 1) s = .int s
  links : ∀ o ∈ outputsOf node,
    o.field? "links" = some .null ∨ ∃ links, o.field? "links" = some (.list links)

theorem IsNode.inOrder {node : Value} (h : IsNode node) : InOrder node where
  record := h.record
  mode := h.mode
  inputs := h.inputs
  names := h.names
  sorted := by
    refine sortOn_sorted (fun s => s) (fun s o ho => ?_) fun i j hlt _ => by omega
    rw [placeOfOutput, h.slots s o ho, getD_some]
  slots s o ho := by rw [slotOf, h.slots s o ho]
  links := h.links

/-- A node that only passes on a value has the one input that its type declares, which is of any type
and has a link, and one output. -/
structure IsReroute (node : Value) : Prop where
  input : ∃ i link, inputsOf node = [i] ∧ nameOf? i = some "" ∧ (typeOf i == .str "*") = true ∧
    linkNumber? i = some link
  output : ∃ o, outputsOf node = [o]

/-- A node of an ordinary type has no input of any type; its outputs have types and can be named, and
the expressions of its widget values are without the mark of an assignment. -/
structure IsOrdinaryNode (nodesInfo node : Value) : Prop where
  type : ∃ type, typeOf node = .str type ∧ IsOrdinary type
  inputs : ∀ i ∈ inputsOf node, (typeOf i == .str "*") = false
  outputs : ∀ o ∈ outputsOf node, (typeOf o == .null) = false
  names : ∀ o ∈ outputsOf node, linksOf o ≠ [] → ∀ name, suggestedName node o = .ok name →
    Identifier.variableId name ≠ "_"
  widgets : ∀ arguments, widgetArguments nodesInfo node (typeOf node) = .ok arguments →
    ∀ entry ∈ arguments, Unmarked entry.2.text.toList

namespace Sheet

def Feeds (sheet : Sheet) (x y : Value) : Prop := ∃ e ∈ sheet.edges, e.source = x ∧ e.target = y

/-- Nodes and links that name each other: ids and numbers are different, every linked input names a
link that leads to its node, every link starts at an output that lists it, and links lead in no
circle. -/
structure WellFormed (sheet : Sheet) (nodesInfo : Value) : Prop where
  ids : ∀ n ∈ sheet.nodes, n.1.IsId
  ids_nodup : (sheet.nodes.map Prod.fst).Nodup
  keys : ∀ e ∈ sheet.edges, e.key.IsId
  keys_nodup : (sheet.edges.map Edge.key).Nodup
  nodes : ∀ n ∈ sheet.nodes, IsNode n.2 ∧ n.2.field? "id" = some n.1
  reroutes : ∀ n ∈ sheet.nodes, Reroutes n.2 → IsReroute n.2
  ordinary : ∀ n ∈ sheet.nodes, ¬ Reroutes n.2 → IsOrdinaryNode nodesInfo n.2
  target : ∀ n ∈ sheet.nodes, ∀ i ∈ inputsOf n.2, ∀ link, linkNumber? i = some link →
    ∃ e ∈ sheet.edges, e.key = link ∧ e.target = n.1
  source : ∀ e ∈ sheet.edges, ∃ n ∈ sheet.nodes, n.1 = e.source ∧ ∃ (s : Nat) (o : Value),
    e.sourceSlot = .int s ∧ (outputsOf n.2)[s]? = some o ∧ e.key ∈ linksOf o
  ends : ∀ e ∈ sheet.edges, e.target ∈ sheet.nodes.map Prod.fst
  acyclic : ∀ x, ¬ TransGen sheet.Feeds x x

/-- Ids and numbers tell nodes and links apart, and links lead from node to node. -/
structure Keyed (sheet : Sheet) : Prop where
  ids : ∀ n ∈ sheet.nodes, n.1.IsId
  ids_nodup : (sheet.nodes.map Prod.fst).Nodup
  keys : ∀ e ∈ sheet.edges, e.key.IsId
  keys_nodup : (sheet.edges.map Edge.key).Nodup
  named : ∀ n ∈ sheet.nodes, n.2.field? "id" = some n.1
  sources : ∀ e ∈ sheet.edges, e.source ∈ sheet.nodes.map Prod.fst
  targets : ∀ e ∈ sheet.edges, e.target ∈ sheet.nodes.map Prod.fst

/-- What statements need of a sheet: a node may have its outputs in order without naming slots. -/
structure Sound (sheet : Sheet) (nodesInfo : Value) : Prop extends sheet.Keyed where
  nodes : ∀ n ∈ sheet.nodes, InOrder n.2
  reroutes : ∀ n ∈ sheet.nodes, Reroutes n.2 → IsReroute n.2
  ordinary : ∀ n ∈ sheet.nodes, ¬ Reroutes n.2 → IsOrdinaryNode nodesInfo n.2
  target : ∀ n ∈ sheet.nodes, ∀ i ∈ inputsOf n.2, ∀ link, linkNumber? i = some link →
    ∃ e ∈ sheet.edges, e.key = link ∧ e.target = n.1
  source : ∀ e ∈ sheet.edges, ∃ n ∈ sheet.nodes, n.1 = e.source ∧ ∃ (s : Nat) (o : Value),
    e.sourceSlot = .int s ∧ (outputsOf n.2)[s]? = some o ∧ e.key ∈ linksOf o
  acyclic : ∀ x, ¬ TransGen sheet.Feeds x x

theorem WellFormed.sound {sheet : Sheet} {nodesInfo : Value} (h : sheet.WellFormed nodesInfo) :
    sheet.Sound nodesInfo where
  ids := h.ids
  ids_nodup := h.ids_nodup
  keys := h.keys
  keys_nodup := h.keys_nodup
  named n hn := (h.nodes n hn).2
  sources e he := by
    obtain ⟨n, hn, hsource, -⟩ := h.source e he
    exact hsource ▸ mem_map_of_mem hn
  targets := h.ends
  nodes n hn := (h.nodes n hn).1.inOrder
  reroutes := h.reroutes
  ordinary := h.ordinary
  target := h.target
  source := h.source
  acyclic := h.acyclic

structure From (sheet : Sheet) (link : Value) (n : Value × Value) (s : Nat) : Prop where
  mem : n ∈ sheet.nodes
  edge : ∃ e ∈ sheet.edges, e.key = link ∧ e.source = n.1 ∧ e.sourceSlot = .int s

/-- The output of a node followed back through nodes that only pass on a value. -/
inductive RootOf (sheet : Sheet) : Value × Value → Nat → Value × Value → Nat → Prop
  | ordinary {n : Value × Value} {s : Nat} : ¬ Reroutes n.2 → RootOf sheet n s n s
  | reroute {n m u : Value × Value} {s r t : Nat} {i link : Value} : Reroutes n.2 →
    i ∈ inputsOf n.2 → linkNumber? i = some link → sheet.From link m r → RootOf sheet m r u t →
    RootOf sheet n s u t

/-- Nodes in an order in which each comes after those where its links start. -/
structure IsOrder (sheet : Sheet) (order : List Value) : Prop where
  known : ∀ id ∈ order, id ∈ sheet.nodes.map Prod.fst
  nodup : order.Nodup
  sorted : ∀ earlier id later, order = earlier ++ id :: later → ∀ n ∈ sheet.nodes, n.1 = id →
    ∀ i ∈ inputsOf n.2, ∀ link, linkNumber? i = some link → ∀ m s, sheet.From link m s → m.1 ∈ earlier

/-- A link followed back through nodes that only pass on a value. -/
def Root (sheet : Sheet) (link : Value) (u : Value × Value) (t : Nat) : Prop :=
  ∃ n s, sheet.From link n s ∧ sheet.RootOf n s u t

section Roots

variable {sheet : Sheet} {nodesInfo : Value} (h : sheet.Sound nodesInfo) {m n : Value × Value}
  {link : Value} {r : Nat}

include h

theorem Sound.eq_of_id (hm : m ∈ sheet.nodes) (hn : n ∈ sheet.nodes) (hid : m.1 = n.1) : m = n :=
  inj_on_of_nodup_map h.ids_nodup hm hn hid

theorem Sound.id_beq (hm : m ∈ sheet.nodes) (hn : n ∈ sheet.nodes) :
    (m.1 == n.1) = true ↔ m = n := by
  rw [(h.ids m hm).beq_iff (h.ids n hn)]
  exact ⟨h.eq_of_id hm hn, fun heq => heq ▸ rfl⟩

theorem From.unique {s : Nat} (hm : sheet.From link m r) (hn : sheet.From link n s) : m = n ∧ r = s := by
  obtain ⟨hmem, e, he, hkey, hsource, hslot⟩ := hm
  obtain ⟨hmem', e', he', hkey', hsource', hslot'⟩ := hn
  obtain rfl : e = e' := inj_on_of_nodup_map h.keys_nodup he he' (hkey.trans hkey'.symm)
  refine ⟨h.eq_of_id hmem hmem' (hsource.symm.trans hsource'), ?_⟩
  exact Int.natCast_inj.mp (Value.int.inj (hslot.symm.trans hslot'))

theorem Sound.exists_from (hn : n ∈ sheet.nodes) {i : Value} (hi : i ∈ inputsOf n.2)
    (hlink : linkNumber? i = some link) :
    ∃ m s o, sheet.From link m s ∧ (outputsOf m.2)[s]? = some o ∧ link ∈ linksOf o ∧
      sheet.Feeds m.1 n.1 := by
  obtain ⟨e, he, rfl, htarget⟩ := h.target n hn i hi link hlink
  obtain ⟨m, hm, hsource, s, o, hslot, ho, hlinks⟩ := h.source e he
  exact ⟨m, s, o, ⟨hm, e, he, rfl, hsource.symm, hslot⟩, ho, hlinks, e, he, hsource.symm, htarget⟩

theorem RootOf.unique {u v : Value × Value} {s t : Nat} (hn : n ∈ sheet.nodes) (hu : sheet.RootOf n s u t)
    (hv : sheet.RootOf n s v r) : u = v ∧ t = r := by
  induction hu generalizing v r with
  | ordinary hnot =>
    cases hv with
    | ordinary => exact ⟨rfl, rfl⟩
    | reroute hreroute => exact absurd hreroute hnot
  | reroute hreroute hi hlink hfrom _ ih =>
    cases hv with
    | ordinary hnot => exact absurd hreroute hnot
    | reroute _ hi' hlink' hfrom' hroot' =>
      obtain ⟨j, -, hinputs, -⟩ := (h.reroutes _ hn hreroute).input
      rw [hinputs, mem_singleton] at hi hi'
      obtain rfl := some.inj ((hi ▸ hlink).symm.trans (hi' ▸ hlink'))
      obtain ⟨rfl, rfl⟩ := From.unique h hfrom hfrom'
      exact ih hfrom.mem hroot'

theorem Root.unique {u v : Value × Value} {t : Nat} (hu : sheet.Root link u t) (hv : sheet.Root link v r) :
    u = v ∧ t = r := by
  obtain ⟨n, s, hfrom, hroot⟩ := hu
  obtain ⟨m, s', hfrom', hroot'⟩ := hv
  obtain ⟨rfl, rfl⟩ := From.unique h hfrom hfrom'
  exact RootOf.unique h hfrom.mem hroot hroot'

end Roots

/-! ## The graph of a sheet -/

def graph (sheet : Sheet) : Graph :=
  ⟨sheet.nodes.map Graph.vertexOf, sheet.edges, sheet.edges.map Edge.link⟩

structure IsOf (sheet : Sheet) (document : Value) : Prop where
  nodes : document.field? "nodes" = some (.list (sheet.nodes.map Prod.snd))
  links : document.field? "links" = some (.list (sheet.edges.map Edge.row))

section Graphs

namespace Keyed

variable {sheet : Sheet} (h : sheet.Keyed)

include h

theorem ofDocument_eq {document : Value} (hdocument : sheet.IsOf document) :
    Graph.ofDocument document = .ok sheet.graph :=
  Graph.ofDocument_eq (field_eq_ok_iff.mpr hdocument.nodes)
    (fun n hn => field_eq_ok_iff.mpr (h.named n hn)) h.ids h.ids_nodup
    (field_eq_ok_iff.mpr hdocument.links) h.keys h.keys_nodup fun e he => ⟨h.sources e he, h.targets e he⟩

theorem vertex?_graph {n : Value × Value} (hn : n ∈ sheet.nodes) :
    sheet.graph.vertex? n.1 = some (Graph.vertexOf n) :=
  Graph.vertex?_of_mem h.ids h.ids_nodup hn

theorem isId_of_mem {id : Value} (hid : id ∈ sheet.nodes.map Prod.fst) : id.IsId := by
  obtain ⟨n, hn, rfl⟩ := mem_map.mp hid
  exact h.ids n hn

theorem isId_vertex : ∀ x ∈ sheet.graph.vertices, x.id.IsId := by
  intro x hx
  obtain ⟨n, hn, rfl⟩ := mem_map.mp hx
  exact h.ids n hn

theorem endOf_graph {e : Edge} (he : e ∈ sheet.edges) : sheet.graph.endOf e.key = .ok e :=
  Graph.endOf_of_mem h.keys h.keys_nodup he (h.isId_of_mem (h.sources e he))
    (h.isId_of_mem (h.targets e he))

end Keyed

variable {sheet : Sheet} {nodesInfo : Value} (h : sheet.Sound nodesInfo)

include h

/-! ## The order of statements -/

theorem sourceOf_graph {input : Value} {e : Edge} (he : e ∈ sheet.edges)
    (hlink : linkNumber? input = some e.key) :
    sourceOf sheet.graph input = .ok (some e.source) := by
  obtain ⟨hfield, hnull⟩ := linkNumber?_eq_some_iff.mp hlink
  unfold sourceOf
  rw [field_eq_ok_iff.mpr hfield, ok_bind]
  have hlink : sheet.graph.link e.key = .ok e.link := Graph.link_of_mem h.keys h.keys_nodup he
  split
  next hkey => exact absurd hkey hnull
  · rw [hlink, ok_bind]
    rfl

theorem choice_eq_none {n : Value × Value} (hn : n ∈ sheet.nodes)
    {choice : Option (Multiplexer × String)} (hchoice : choiceOfNode nodesInfo n.2 = .ok choice) :
    choice = none := by
  obtain ⟨type, htype, hnone⟩ : ∃ type, typeOf n.2 = .str type ∧
      ∀ widgets, choice? (.str type) widgets = .ok none := by
    by_cases hreroute : Reroutes n.2
    · obtain ⟨type, hmem, htype⟩ := hreroute
      refine ⟨type, htype, fun widgets => ?_⟩
      simp only [rerouteTypes, mem_cons, not_mem_nil, or_false] at hmem
      rcases hmem with rfl | rfl <;> rfl
    · obtain ⟨type, htype, hordinary⟩ := (h.ordinary n hn hreroute).type
      exact ⟨type, htype, choice?_of_isOrdinary hordinary⟩
  unfold choiceOfNode at hchoice
  obtain ⟨widgets, -, hchoice⟩ := ok_of_bind hchoice
  split at hchoice
  · exact (Except.ok.inj hchoice).symm
  · obtain ⟨type', htype', hchoice⟩ := ok_of_bind hchoice
    rw [← typeOf_of_field htype', htype, hnone] at hchoice
    exact (Except.ok.inj hchoice).symm

end Graphs

end Sheet

theorem mem_items_readEach {β : Type} {f : α → Except Fault (Option β)} {items : List α} {b : β}
    (h : b ∈ (readEach f items).items) : ∃ a ∈ items, f a = .ok (some b) := by
  induction items with
  | nil => cases h
  | cons a rest ih =>
    unfold readEach at h
    split at h
    · cases h
    · exact (ih h).imp fun a' ha' => ⟨mem_cons_of_mem _ ha'.1, ha'.2⟩
    next found hfound =>
      rcases mem_cons.mp h with rfl | hrest
      · exact ⟨a, mem_cons_self, hfound⟩
      · exact (ih hrest).imp fun a' ha' => ⟨mem_cons_of_mem _ ha'.1, ha'.2⟩

theorem mem_readEach {β : Type} {f : α → Except Fault (Option β)} {items : List α}
    (h : (readEach f items).fault = none) {a : α} (ha : a ∈ items) {b : β} (hb : f a = .ok (some b)) :
    b ∈ (readEach f items).items := by
  induction items with
  | nil => cases ha
  | cons first rest ih =>
    unfold readEach at h ⊢
    split at h
    · cases h
    next hnone =>
      rcases mem_cons.mp ha with rfl | ha
      · rw [hb] at hnone
        cases hnone
      · exact ih h ha
    next found hfound =>
      rcases mem_cons.mp ha with rfl | ha
      · rw [hb] at hfound
        cases hfound
        exact mem_cons_self
      · exact mem_cons_of_mem _ (ih h ha)

namespace Sheet

section Order

variable {sheet : Sheet} {nodesInfo : Value} (h : sheet.Sound nodesInfo)

include h

theorem sources_graph {n : Value × Value} (hn : n ∈ sheet.nodes) :
    (∃ e, choiceOfNode nodesInfo n.2 = .error e ∧ sources nodesInfo sheet.graph n.1 = ⟨[], some e⟩) ∨
      sources nodesInfo sheet.graph n.1 = readEach (sourceOf sheet.graph) (inputsOf n.2) := by
  have hnode : sheet.graph.nodeOf n.1 = .ok n.2 := by
    simp [Graph.nodeOf, (h.ids n hn).hashable, h.vertex?_graph hn, Graph.vertexOf]
  unfold sources
  rw [hnode, ok_bind]
  rcases (h.nodes n hn).inputs with hnone | ⟨items, hitems⟩
  · rw [inputsOf, itemsAt, hnone]
    exact .inr rfl
  · rw [inputsOf, itemsAt, hitems]
    cases hchoice : choiceOfNode nodesInfo n.2 with
    | error e => exact .inl ⟨e, rfl, rfl⟩
    | ok choice =>
      obtain rfl := choice_eq_none h hn hchoice
      exact .inr rfl

theorem feeds_of_mem_sources {n : Value × Value} (hn : n ∈ sheet.nodes) {x : Value}
    (hx : x ∈ (sources nodesInfo sheet.graph n.1).items) :
    x ∈ sheet.nodes.map Prod.fst ∧ sheet.Feeds x n.1 := by
  rcases sources_graph h hn with ⟨e, -, heq⟩ | heq
  · rw [heq] at hx
    cases hx
  · rw [heq] at hx
    obtain ⟨i, hi, hsource⟩ := mem_items_readEach hx
    obtain ⟨link, l, hnumber, hl, rfl⟩ := of_sourceOf hsource
    obtain ⟨e, he, rfl, htarget⟩ := h.target n hn i hi link hnumber
    obtain ⟨m, hm, hmsource, -⟩ := h.source e he
    cases hl.symm.trans (Graph.link_of_mem h.keys h.keys_nodup he)
    exact ⟨mem_map.mpr ⟨m, hm, hmsource⟩, e, he, rfl, htarget⟩

theorem navigable_graph :
    Navigable (sources nodesInfo sheet.graph) (sheet.nodes.map Prod.fst) where
  eq_iff x hx y hy := by
    obtain ⟨m, hm, rfl⟩ := mem_map.mp hx
    obtain ⟨n, hn, rfl⟩ := mem_map.mp hy
    exact (h.ids m hm).beq_iff (h.ids n hn)
  hashable x hx := by
    obtain ⟨n, hn, rfl⟩ := mem_map.mp hx
    exact (h.ids n hn).hashable
  closed x hx y hy := by
    obtain ⟨n, hn, rfl⟩ := mem_map.mp hx
    exact (feeds_of_mem_sources h hn hy).1

theorem transGen_feeds {x y : Value} (hy : y ∈ sheet.nodes.map Prod.fst)
    (hpath : TransGen (Workflow.Feeds (sources nodesInfo sheet.graph)) x y) :
    x ∈ sheet.nodes.map Prod.fst ∧ TransGen sheet.Feeds x y := by
  have hstep {x y : Value} (hy : y ∈ sheet.nodes.map Prod.fst)
      (hxy : Workflow.Feeds (sources nodesInfo sheet.graph) x y) :
      x ∈ sheet.nodes.map Prod.fst ∧ sheet.Feeds x y := by
    obtain ⟨n, hn, rfl⟩ := mem_map.mp hy
    exact feeds_of_mem_sources h hn hxy
  induction hpath using TransGen.head_induction_on with
  | single hxy => exact (hstep hy hxy).imp_right .single
  | head hxy _ ih =>
    obtain ⟨hx, hfeeds⟩ := hstep ih.1 hxy
    exact ⟨hx, .head hfeeds ih.2⟩

theorem unknown_of_not_mem {id : Value} (hid : id.IsId) (hnew : id ∉ sheet.nodes.map Prod.fst) :
    Unknown (sources nodesInfo sheet.graph) (sheet.nodes.map Prod.fst) id := by
  have hvertex : sheet.graph.vertex? id = none := Graph.vertex?_of_not_mem hid h.ids hnew
  refine ⟨fun x hx => ?_, ?_⟩
  · obtain ⟨n, hn, rfl⟩ := mem_map.mp hx
    rw [Bool.eq_false_iff, ne_eq, (h.ids n hn).beq_iff hid]
    exact fun heq => hnew (heq ▸ hx)
  · have hnode : sheet.graph.nodeOf id = .error .missingKey := by
      simp [Graph.nodeOf, hid.hashable, hvertex]
    unfold sources
    rw [hnode]
    exact some_ne_none _

theorem sound_order {ends : List Value} (hends : ∀ id ∈ ends, id.IsId)
    (hfault : (walkFrom nodesInfo sheet.graph ends).fault = none) :
    sheet.IsOrder (walkFrom nodesInfo sheet.graph ends).order ∧
      (∀ id ∈ ends, id ∈ (walkFrom nodesInfo sheet.graph ends).order) ∧
      ∀ id ∈ (walkFrom nodesInfo sheet.graph ends).order, ∃ e ∈ ends, ReflTransGen sheet.Feeds id e := by
  have hlength : (sheet.nodes.map Prod.fst).length < sheet.graph.vertices.length + 2 := by
    simp [graph]
  obtain ⟨hwalk, hall⟩ := sound_walk (navigable_graph h)
    (fun x hx hcycle => h.acyclic x (transGen_feeds h hx hcycle).2) hlength
    (fun id hid => or_iff_not_imp_left.mpr (unknown_of_not_mem h (hends id hid))) hfault
  have hknown : ∀ id ∈ (walkFrom nodesInfo sheet.graph ends).order, id ∈ sheet.nodes.map Prod.fst :=
    fun id hid => hwalk.known id (hwalk.finished id hid)
  refine ⟨⟨hknown, hwalk.order_nodup, ?_⟩, hall, fun id hid => ?_⟩
  · rintro earlier id later hsplit n hn rfl i hi link hlink m s ⟨-, e, he, rfl, hsource, -⟩
    have hmem : n.1 ∈ (ends.foldl (visit (sources nodesInfo sheet.graph)
      (sheet.graph.vertices.length + 2)) ⟨[], [], none⟩).order := hsplit ▸ by simp
    have hread := hwalk.readable n.1 hmem
    refine hwalk.sorted earlier n.1 later hsplit m.1 ?_
    rcases sources_graph h hn with ⟨e, -, heq⟩ | heq
    · rw [heq] at hread
      cases hread
    · rw [heq] at hread ⊢
      exact mem_readEach hread hi (hsource ▸ sourceOf_graph h he hlink)
  · rcases mem_order_foldl (fun _ _ => mem_order_visit _) ends hid with hnil | ⟨e, he, hpath⟩
    · cases hnil
    · refine ⟨e, he, ?_⟩
      rcases reflTransGen_iff_eq_or_transGen.mp hpath with rfl | hpath
      · exact .refl
      · exact (transGen_feeds h (hknown e (hall e he)) hpath).2.to_reflTransGen

end Order

end Sheet

end Flowscript.Workflow
