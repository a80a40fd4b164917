import Flowscript.Proofs.Workflow.Ends
import Flowscript.Proofs.Workflow.Journey
import Flowscript.Proofs.Workflow.Sheet
import Flowscript.Proofs.Workflow.Signature
import Flowscript.Proofs.Workflow.Steady
import Mathlib.Data.Set.Finite.List

/-!
# What the end nodes reach

Links are followed backwards from end nodes. A node whose type chooses between inputs leaves the
others aside, so the links that count are those of the inputs that it keeps. Where every link has a
source and every type is known, the visit finds all that the end nodes reach along these links and
nothing else, circles or not. Without end nodes of its own choice it starts from the vertices that
no link leaves, and in a graph without circles these reach every vertex.
-/

namespace Flowscript.Workflow

open List Option Relation

/-! ## Known types -/

def IsConfig (config : Value) : Prop := ∃ kind options, Lists config (kind :: options)

inductive IsKnown (nodesInfo : Value) (type : String) : Prop
  | editor (htype : type ∈ editorTypes)
  | described {types info groups required optional : List (String × Value)}
      (htypes : nodesInfo = .dict types) (hinfo : Value.lookup type types = some (.dict info))
      (hinput : Value.lookup "input" info = some (.dict groups))
      (hrequired : HasGroup groups "required" required)
      (hoptional : HasGroup groups "optional" optional)
      (hconfigs : ∀ entry ∈ required ++ optional, IsConfig entry.2)

section Types

variable {nodesInfo : Value} {type : String}

theorem isConfig_sole (type : String) : IsConfig (.tuple [.str type]) := ⟨.str type, [], .inr rfl⟩

theorem IsKnown.inputTypes (h : IsKnown nodesInfo type) : ∃ groups required optional,
    inputTypes nodesInfo (.str type) = .ok (.dict groups) ∧ HasGroup groups "required" required ∧
      HasGroup groups "optional" optional ∧ ∀ entry ∈ required ++ optional, IsConfig entry.2 := by
  by_cases htype : type ∈ editorTypes
  · obtain ⟨name, kind, hsole⟩ : ∃ name kind,
        Workflow.inputTypes nodesInfo (.str type) = .ok (soleInput name kind) := by
      simp only [editorTypes, rerouteTypes, cons_append, nil_append, mem_cons,
        not_mem_nil, or_false] at htype
      rcases htype with rfl | rfl | rfl | rfl <;> exact ⟨_, _, rfl⟩
    refine ⟨_, [(name, .tuple [.str kind])], [], hsole, .inl rfl, .inr ⟨rfl, .inl rfl⟩, ?_⟩
    intro entry hentry
    obtain rfl : entry = (name, .tuple [.str kind]) := by simpa using hentry
    exact isConfig_sole kind
  · cases h with
    | editor hmem => exact absurd hmem htype
    | described htypes hinfo hinput hrequired hoptional hconfigs =>
      exact ⟨_, _, _, htypes ▸ inputTypes_of_listed htype hinfo hinput, hrequired, hoptional, hconfigs⟩

theorem widgetsOf_ok (type : Value) (name : String) {config : Value} (h : IsConfig config) :
    ∃ names, widgetsOf type name config = .ok names := by
  obtain ⟨kind, options, hlists⟩ := h
  have hkind : config.item (.int 0) = .ok kind := hlists.item (i := 0) rfl
  unfold widgetsOf
  rw [hkind, ok_bind, hlists.length, ok_bind]
  cases options with
  | nil => exact ⟨_, rfl⟩
  | cons option rest =>
    have hoption : config.item (.int 1) = .ok option := hlists.item (i := 1) rfl
    rw [if_neg (by simp), hoption, ok_bind]
    split
    · split
      · split
        · exact ⟨_, rfl⟩
        · exact ⟨_, rfl⟩
      · exact ⟨_, rfl⟩
    · exact ⟨_, rfl⟩

theorem widgetNames_ok (h : IsKnown nodesInfo type) :
    ∃ names, widgetNames nodesInfo (.str type) = .ok names := by
  obtain ⟨groups, required, optional, htypes, hrequired, hoptional, hconfigs⟩ := h.inputTypes
  have hgroups : ∀ name ∈ NodeInfo.positionalGroups, ∃ entries, HasGroup groups name entries ∧
      ∀ entry ∈ entries, IsConfig entry.2 := by
    intro name hname
    simp only [NodeInfo.positionalGroups, mem_cons, not_mem_nil, or_false] at hname
    rcases hname with rfl | rfl
    · exact ⟨required, hrequired, fun entry hentry => hconfigs entry (mem_append_left _ hentry)⟩
    · exact ⟨optional, hoptional, fun entry hentry => hconfigs entry (mem_append_right _ hentry)⟩
  unfold widgetNames
  rw [htypes, ok_bind]
  refine (foldlM_ok (fun _ _ => True) NodeInfo.positionalGroups ?_ trivial).imp fun _ hnames => hnames.1
  intro done name rest all hnames _
  obtain ⟨entries, hgroup, hconfigs⟩ := hgroups name (hnames ▸ by simp)
  have hget : (Value.dict groups).get name = .ok (Value.lookup name groups) := rfl
  rw [hget, ok_bind]
  rcases hgroup with hsome | ⟨-, hnone | hnull⟩
  · rw [hsome]
    refine foldlM_ok (fun _ _ => True) entries (fun done entry rest all hentries _ => ?_) trivial
    obtain ⟨input, config⟩ := entry
    have hconfig : IsConfig config := hconfigs (input, config) (hentries ▸ by simp)
    obtain ⟨own, hown⟩ := widgetsOf_ok (.str type) input hconfig
    exact ⟨all ++ own, by simp only [hown, ok_bind], trivial⟩
  · rw [hnone]
    exact ⟨all, rfl, trivial⟩
  · rw [hnull]
    exact ⟨all, rfl, trivial⟩

end Types

/-! ## Inputs that are kept -/

def IsInput (input : Value) : Prop :=
  (input.field? "name").isSome ∧ (input.field? "type").isSome ∧ (input.field? "link").isSome

/-- A node of a known type, with inputs and widget values as a document has them. -/
structure Legible (nodesInfo node : Value) : Prop where
  type : ∃ type, node.field? "type" = some (.str type) ∧ IsKnown nodesInfo type
  inputs : node.field? "inputs" = none ∨ ∃ items, node.field? "inputs" = some (.list items)
  input : ∀ input ∈ inputsOf node, IsInput input
  widgets : ∀ values, node.field? "widgets_values" = some values →
    (∃ items, values = .list items) ∨ ∃ fields, values = .record fields

/-- The inputs of a node whose links are followed: all of them, unless the node has widget values
and its type chooses by them. -/
def keptInputs (nodesInfo node : Value) : Except Fault (List Value) := do
  match ← widgetsOfNode nodesInfo node with
  | none => .ok (inputsOf node)
  | some widgets => followed (typeOf node) widgets (inputsOf node)

def keptUnder : Option (Multiplexer × String) → Value → Bool
  | none, _ => true
  | some (m, chosen), input =>
    !(typeOf input == .str m.channel) || (input.field? "name").getD .null == .str chosen

section Nodes

variable {nodesInfo node : Value}

theorem keeps_eq (m : Multiplexer) (chosen : String) {input : Value} (h : IsInput input) :
    m.keeps chosen input = .ok (keptUnder (some (m, chosen)) input) := by
  obtain ⟨name, hname⟩ := isSome_iff_exists.mp h.1
  obtain ⟨type, htype⟩ := isSome_iff_exists.mp h.2.1
  have htypeOf : typeOf input = type := typeOf_of_field (field_eq_ok_iff.mpr htype)
  unfold Multiplexer.keeps
  simp only [keptUnder, field_eq_ok_iff.mpr htype, field_eq_ok_iff.mpr hname, ok_bind, htypeOf, hname,
    getD_some]
  cases (type == .str m.channel) <;> rfl

theorem followedSource_eq (g : Graph) (choice : Option (Multiplexer × String)) {input : Value}
    (h : IsInput input) : followedSource g choice input =
      if keptUnder choice input then sourceOf g input else .ok none := by
  unfold followedSource
  cases choice with
  | none => rfl
  | some choice =>
    obtain ⟨m, chosen⟩ := choice
    simp only [keeps_eq m chosen h, ok_bind]

theorem Legible.widgetsOfNode_ok (h : Legible nodesInfo node) :
    ∃ widgets, widgetsOfNode nodesInfo node = .ok widgets := by
  obtain ⟨type, htype, hknown⟩ := h.type
  obtain ⟨names, hnames⟩ := widgetNames_ok hknown
  unfold widgetsOfNode
  split
  next values _ hvalues =>
    rw [field_eq_ok_iff.mpr htype, ok_bind]
    rcases h.widgets values hvalues with ⟨items, rfl⟩ | ⟨fields, rfl⟩
    · refine ⟨some (zipValues names items), ?_⟩
      have hvalues : widgetValues nodesInfo (.str type) (.list items) = .ok (zipValues names items) := by
        simp only [widgetValues, hnames, ok_bind]
        rfl
      rw [hvalues, ok_bind]
    · exact ⟨some fields, rfl⟩
  · exact ⟨none, rfl⟩

theorem multiplexer?_str (type : String) : multiplexer? (.str type) =
    .ok (multiplexers.find? fun m => Value.str type == .str m.nodeType) :=
  if_pos rfl

theorem choice?_ok (type : String) (widgets : List (String × Value)) :
    ∃ choice, choice? (.str type) widgets = .ok choice := by
  unfold choice?
  rw [multiplexer?_str, ok_bind]
  split
  · exact ⟨_, rfl⟩
  · exact ⟨_, rfl⟩

theorem Legible.keptInputs_eq (h : Legible nodesInfo node) : ∃ choice,
    choiceOfNode nodesInfo node = .ok choice ∧
      keptInputs nodesInfo node = .ok ((inputsOf node).filter (keptUnder choice)) := by
  obtain ⟨type, htype, -⟩ := h.type
  obtain ⟨widgets, hwidgets⟩ := h.widgetsOfNode_ok
  unfold choiceOfNode keptInputs
  rw [hwidgets, ok_bind, ok_bind]
  have hall : (inputsOf node).filter (keptUnder none) = inputsOf node :=
    filter_eq_self.mpr fun _ _ => rfl
  cases widgets with
  | none => exact ⟨none, rfl, by rw [hall]⟩
  | some widgets =>
    obtain ⟨choice, hchoice⟩ := choice?_ok type widgets
    refine ⟨choice, ?_, ?_⟩
    · simp only [field_eq_ok_iff.mpr htype, ok_bind, hchoice]
    · simp only [followed, typeOf_of_field (field_eq_ok_iff.mpr htype), hchoice, ok_bind]
      cases choice with
      | none => rw [hall]
      | some choice =>
        obtain ⟨m, chosen⟩ := choice
        exact filterM_eq_filter fun input hinput => keeps_eq m chosen (h.input input hinput)

theorem Legible.keptInputs_of_plain (h : Legible nodesInfo node)
    (hplain : ∀ m ∈ multiplexers, typeOf node ≠ .str m.nodeType) :
    keptInputs nodesInfo node = .ok (inputsOf node) := by
  obtain ⟨type, htype, -⟩ := h.type
  obtain ⟨widgets, hwidgets⟩ := h.widgetsOfNode_ok
  have htypeOf : typeOf node = .str type := typeOf_of_field (field_eq_ok_iff.mpr htype)
  have hnot : type ∉ multiplexers.map Multiplexer.nodeType := by
    intro hmem
    obtain ⟨m, hm, heq⟩ := mem_map.mp hmem
    exact hplain m hm (htypeOf.trans (heq ▸ rfl))
  unfold keptInputs
  rw [hwidgets, ok_bind]
  cases widgets with
  | none => rfl
  | some widgets => simp only [followed, htypeOf, choice?_of_not_mem hnot widgets, ok_bind]

end Nodes

/-! ## Links that are followed -/

namespace Graph

def nodeIds (g : Graph) : List Value := (g.vertices.filter fun x => x.node.isSome).map Vertex.id

/-- Every link of an input has a node for its source, and every node can be read. -/
structure WellLinked (g : Graph) (nodesInfo : Value) : Prop extends g.Distinct where
  legible : ∀ x ∈ g.vertices, ∀ node, x.node = some node → Legible nodesInfo node
  links : ∀ x ∈ g.vertices, ∀ node, x.node = some node → ∀ input ∈ inputsOf node, ∀ number,
    linkNumber? input = some number → ∃ link, g.link number = .ok link ∧ link.source ∈ g.nodeIds

def KeptLink (g : Graph) (nodesInfo x y : Value) : Prop :=
  ∃ node kept, g.nodeOf y = .ok node ∧ keptInputs nodesInfo node = .ok kept ∧
    ∃ input ∈ kept, ∃ number link, linkNumber? input = some number ∧ g.link number = .ok link ∧
      link.source = x

section Nodes

variable {g : Graph}

theorem exists_of_nodeOf {id node : Value} (hnode : g.nodeOf id = .ok node) :
    ∃ x ∈ g.vertices, x.node = some node := by
  obtain ⟨-, x, hx, hnode⟩ := nodeOf_eq_ok_iff.mp hnode
  exact ⟨x, mem_of_find?_eq_some hx, hnode⟩

theorem exists_of_mem_nodeIds {id : Value} (hid : id ∈ g.nodeIds) :
    ∃ x ∈ g.vertices, x.id = id ∧ ∃ node, x.node = some node := by
  obtain ⟨x, hx, rfl⟩ := mem_map.mp hid
  obtain ⟨hx, hnode⟩ := mem_filter.mp hx
  exact ⟨x, hx, rfl, isSome_iff_exists.mp hnode⟩

end Nodes

namespace WellLinked

variable {g : Graph} {nodesInfo : Value} (h : g.WellLinked nodesInfo) {node : Value}

include h

theorem nodeOf_of_mem {x : Vertex} (hx : x ∈ g.vertices) (hnode : x.node = some node) :
    g.nodeOf x.id = .ok node :=
  nodeOf_eq_ok_iff.mpr ⟨(h.ids x hx).hashable, x,
    (h.toDistinct.vertex?_eq_some_iff (h.ids x hx)).mpr ⟨hx, rfl⟩, hnode⟩

theorem sourceOf_eq {x : Vertex} (hx : x ∈ g.vertices) (hnode : x.node = some node) {input : Value}
    (hinput : input ∈ inputsOf node) :
    (linkNumber? input = none ∧ sourceOf g input = .ok none) ∨
      ∃ number link, linkNumber? input = some number ∧ g.link number = .ok link ∧
        link.source ∈ g.nodeIds ∧ sourceOf g input = .ok (some link.source) := by
  obtain ⟨number, hnumber⟩ :=
    isSome_iff_exists.mp ((h.legible x hx node hnode).input input hinput).2.2
  unfold sourceOf
  rw [field_eq_ok_iff.mpr hnumber, ok_bind]
  by_cases hnull : number = .null
  · subst hnull
    exact .inl ⟨by simp [linkNumber?, hnumber], rfl⟩
  · have hlinked := linkNumber?_eq_some_iff.mpr ⟨hnumber, hnull⟩
    obtain ⟨link, hlink, hsource⟩ := h.links x hx node hnode input hinput number hlinked
    refine .inr ⟨number, link, hlinked, hlink, hsource, ?_⟩
    split
    · exact absurd rfl hnull
    · rw [hlink, ok_bind]

theorem sources_spec {id : Value} (hnode : g.nodeOf id = .ok node) :
    (sources nodesInfo g id).fault = none ∧
      ∀ x, x ∈ (sources nodesInfo g id).items ↔ g.KeptLink nodesInfo x id := by
  obtain ⟨v, hv, hvnode⟩ := exists_of_nodeOf hnode
  have hlegible := h.legible v hv node hvnode
  obtain ⟨choice, hchoice, hkept⟩ := hlegible.keptInputs_eq
  have hsources : sources nodesInfo g id = readEach (followedSource g choice) (inputsOf node) := by
    unfold sources
    rcases hlegible.inputs with hnone | ⟨items, hitems⟩
    · simp only [hnode, ok_bind, hnone, inputsOf, itemsAt]
      rfl
    · have hiterate : (Value.list items).iterate = .ok items := rfl
      simp only [hnode, ok_bind, hitems, hchoice, hiterate, inputsOf, itemsAt]
  have hfollowed : ∀ input ∈ inputsOf node, followedSource g choice input =
      if keptUnder choice input then sourceOf g input else .ok none :=
    fun input hinput => followedSource_eq g choice (hlegible.input input hinput)
  have hread : (readEach (followedSource g choice) (inputsOf node)).fault = none := by
    refine fault_readEach_iff.mpr fun input hinput => ?_
    rw [hfollowed input hinput]
    split
    · rcases h.sourceOf_eq hv hvnode hinput with ⟨-, hsource⟩ | ⟨_, _, -, -, -, hsource⟩
      · exact ⟨_, hsource⟩
      · exact ⟨_, hsource⟩
    · exact ⟨_, rfl⟩
  rw [hsources]
  refine ⟨hread, fun x => ⟨fun hx => ?_, ?_⟩⟩
  · obtain ⟨input, hinput, hx⟩ := mem_items_readEach hx
    rw [hfollowed input hinput] at hx
    split at hx
    next hkeep =>
      rcases h.sourceOf_eq hv hvnode hinput with ⟨-, hsource⟩ | ⟨number, link, hnumber, hlink, -, hsource⟩
      · cases hsource.symm.trans hx
      · cases hsource.symm.trans hx
        exact ⟨node, _, hnode, hkept, input, mem_filter.mpr ⟨hinput, hkeep⟩, number, link, hnumber,
          hlink, rfl⟩
    · cases hx
  · rintro ⟨node', kept, hnode', hkept', input, hinput, number, link, hnumber, hlink, rfl⟩
    cases hnode.symm.trans hnode'
    cases hkept.symm.trans hkept'
    obtain ⟨hinput, hkeep⟩ := mem_filter.mp hinput
    refine mem_readEach hread hinput ?_
    rw [hfollowed input hinput, if_pos hkeep]
    rcases h.sourceOf_eq hv hvnode hinput with ⟨hnone, -⟩ | ⟨number', link', hnumber', hlink', -, hsource⟩
    · cases hnone.symm.trans hnumber
    · cases hnumber.symm.trans hnumber'
      cases hlink.symm.trans hlink'
      exact hsource

theorem feeds_sources : Feeds (sources nodesInfo g) = g.KeptLink nodesInfo := by
  funext x y
  refine propext ?_
  cases hnode : g.nodeOf y with
  | ok node => exact (h.sources_spec hnode).2 x
  | error e =>
    constructor
    · intro hfeeds
      unfold Feeds sources at hfeeds
      rw [hnode] at hfeeds
      cases hfeeds
    · rintro ⟨node, -, hnode', -⟩
      cases hnode.symm.trans hnode'

theorem navigable : Navigable (sources nodesInfo g) g.nodeIds where
  eq_iff x hx y hy := by
    obtain ⟨v, hv, rfl, -⟩ := exists_of_mem_nodeIds hx
    obtain ⟨w, hw, rfl, -⟩ := exists_of_mem_nodeIds hy
    exact (h.ids v hv).beq_iff (h.ids w hw)
  hashable x hx := by
    obtain ⟨v, hv, rfl, -⟩ := exists_of_mem_nodeIds hx
    exact (h.ids v hv).hashable
  closed x hx y hy := by
    obtain ⟨v, hv, rfl, node, hnode⟩ := exists_of_mem_nodeIds hx
    have hnodeOf := h.nodeOf_of_mem hv hnode
    obtain ⟨choice, -, hkept⟩ := (h.legible v hv node hnode).keptInputs_eq
    obtain ⟨node', kept, hnode', hkept', input, hinput, number, link, hnumber, hlink, rfl⟩ :=
      ((h.sources_spec hnodeOf).2 y).mp hy
    cases hnodeOf.symm.trans hnode'
    cases hkept.symm.trans hkept'
    obtain ⟨link', hlink', hsource⟩ :=
      h.links v hv node hnode input (mem_of_mem_filter hinput) number hnumber
    cases hlink.symm.trans hlink'
    exact hsource

theorem fault_sources : ∀ x ∈ g.nodeIds, (sources nodesInfo g x).fault = none := by
  intro x hx
  obtain ⟨v, hv, rfl, node, hnode⟩ := exists_of_mem_nodeIds hx
  exact (h.sources_spec (h.nodeOf_of_mem hv hnode)).1

theorem walkFrom_spec {ends : List Value} (hends : ∀ e ∈ ends, e ∈ g.nodeIds) :
    Journey (sources nodesInfo g) ⟨[], [], none⟩ ends (walkFrom nodesInfo g ends) ∧
      (walkFrom nodesInfo g ends).fault = none ∧ (walkFrom nodesInfo g ends).order.Nodup ∧
      (∀ x, x ∈ (walkFrom nodesInfo g ends).order ↔
        ∃ e ∈ ends, ReflTransGen (g.KeptLink nodesInfo) x e) ∧
      ((∀ x ∈ (walkFrom nodesInfo g ends).order, ¬ TransGen (g.KeptLink nodesInfo) x x) →
        ∀ earlier x later, (walkFrom nodesInfo g ends).order = earlier ++ x :: later →
          ∀ y, g.KeptLink nodesInfo y x → y ∈ earlier) := by
  have hdepth : g.nodeIds.length < g.vertices.length + 2 := by
    have hle : g.nodeIds.length ≤ g.vertices.length := by
      rw [nodeIds, length_map]
      exact length_filter_le _ _
    omega
  have hmem : ∀ x, x ∈ (walkFrom nodesInfo g ends).order ↔
      ∃ e ∈ ends, ReflTransGen (g.KeptLink nodesInfo) x e := by
    rw [← h.feeds_sources]
    exact fun x => mem_order_walk_iff h.navigable h.fault_sources hdepth hends
  refine ⟨journey_walk h.navigable h.fault_sources hdepth hends,
    fault_walk h.navigable h.fault_sources _ hends,
    (within_order_walk h.navigable h.fault_sources hdepth hends).2, hmem, ?_⟩
  intro hacyclic earlier x later horder y hy
  rw [← h.feeds_sources] at hy
  refine sorted_walk h.navigable h.fault_sources hdepth hends ?_ horder y hy
  rw [h.feeds_sources]
  exact fun x hx => hacyclic x ((hmem x).mpr hx)

end WellLinked

/-! ## Graphs without circles -/

def HasPosition (node : Value) : Prop :=
  (∃ items, node.field? "pos" = some (.list items) ∧ ∀ v ∈ items, v.number?.isSome) ∨
    ∃ fields x y, node.field? "pos" = some (.record fields) ∧ Value.lookup "0" fields = some x ∧
      Value.lookup "1" fields = some y ∧ x.number?.isSome ∧ y.number?.isSome

def Adjacent (g : Graph) (x y : Value) : Prop := ∃ e ∈ g.edges, e.source = x ∧ e.target = y

/-- A graph of nodes without circles, whose edges are links of inputs, and in which no type chooses
between inputs. -/
structure Consistent (g : Graph) : Prop where
  nodes : ∀ x ∈ g.vertices, ∃ node, x.node = some node ∧ HasPosition node ∧
    ∀ m ∈ multiplexers, typeOf node ≠ .str m.nodeType
  edges : ∀ e ∈ g.edges, ∃ x ∈ g.vertices, x.id = e.target ∧ ∃ node, x.node = some node ∧
    ∃ input ∈ inputsOf node, ∃ number link, linkNumber? input = some number ∧
      g.link number = .ok link ∧ link.source = e.source
  acyclic : ∀ x, ¬ TransGen g.Adjacent x x

theorem number?_add {v w : Value} (hv : v.number?.isSome) (hw : w.number?.isSome) :
    ∃ sum, Value.add v w = .ok sum ∧ sum.number?.isSome := by
  obtain ⟨x, hx⟩ := isSome_iff_exists.mp hv
  obtain ⟨y, hy⟩ := isSome_iff_exists.mp hw
  refine ⟨Value.addNumbers x y, ?_, ?_⟩
  · unfold Value.add
    rw [hx, hy]
  · cases x <;> cases y <;> rfl

theorem distance_ok {node : Value} (h : HasPosition node) :
    ∃ d, distance node = .ok d ∧ d.number?.isSome := by
  unfold distance
  rcases h with ⟨items, hpos, hnumbers⟩ | ⟨fields, x, y, hpos, hx, hy, hxnumber, hynumber⟩
  · have hiterate : (Value.list items).iterate = .ok items := rfl
    simp only [field_eq_ok_iff.mpr hpos, ok_bind, hiterate]
    exact foldlM_ok (fun _ (d : Value) => d.number?.isSome) items
      (fun done v rest d hitems hd => number?_add hd (hnumbers v (hitems ▸ by simp))) rfl
  · have hxfield : (Value.record fields).field "0" = .ok x := field_eq_ok_iff.mpr hx
    have hyfield : (Value.record fields).field "1" = .ok y := field_eq_ok_iff.mpr hy
    simp only [field_eq_ok_iff.mpr hpos, ok_bind, hxfield, hyfield]
    exact number?_add hxnumber hynumber

theorem warnings_keyAll {vs : List Vertex} (h : ∀ v ∈ vs, v.node.isSome) : (keyAll vs).1 = [] := by
  induction vs with
  | nil => rfl
  | cons v rest ih =>
    obtain ⟨node, hnode⟩ := isSome_iff_exists.mp (h v mem_cons_self)
    unfold keyAll
    split
    · rfl
    · simp [ih fun w hw => h w (mem_cons_of_mem _ hw), warning?, hnode]

theorem exists_end {α : Type} {R : α → α → Prop} {items : List α} (hacyclic : ∀ x, ¬ TransGen R x x)
    (hclosed : ∀ x ∈ items, ∀ y, R x y → y ∈ items) {x : α} (hx : x ∈ items) :
    ∃ y ∈ items, ReflTransGen R x y ∧ ∀ z, ¬ R y z := by
  let later (a b : {x // x ∈ items}) : Prop := TransGen R b.1 a.1
  have hfinite : Finite {x // x ∈ items} := (finite_toSet items).to_subtype
  have htrans : IsTrans {x // x ∈ items} later := ⟨fun a b c hab hbc => hbc.trans hab⟩
  have hirrefl : Std.Irrefl later := ⟨fun a => hacyclic a.1⟩
  have hwf : WellFounded later := Finite.wellFounded_of_trans_of_irrefl later
  suffices hall : ∀ a : {x // x ∈ items}, ∃ y ∈ items, ReflTransGen R a.1 y ∧ ∀ z, ¬ R y z from
    hall ⟨x, hx⟩
  intro a
  induction a using hwf.induction with
  | _ a ih =>
    by_cases hend : ∀ z, ¬ R a.1 z
    · exact ⟨a.1, a.2, .refl, hend⟩
    · obtain ⟨z, hz⟩ := not_forall_not.mp hend
      obtain ⟨y, hy, hpath, hstop⟩ := ih ⟨z, hclosed a.1 a.2 z hz⟩ (.single hz)
      exact ⟨y, hy, .head hz hpath, hstop⟩

namespace Consistent

variable {g : Graph} {nodesInfo : Value} (hg : g.Consistent) (h : g.WellLinked nodesInfo)

include hg

theorem mem_nodeIds {x : Vertex} (hx : x ∈ g.vertices) : x.id ∈ g.nodeIds := by
  obtain ⟨node, hnode, -⟩ := hg.nodes x hx
  exact mem_map.mpr ⟨x, mem_filter.mpr ⟨hx, by rw [hnode]; rfl⟩, rfl⟩

theorem endNodes_ok : ∃ ends, endNodes g = ([], .ok ends) := by
  have hkeys : ∀ x ∈ g.sinks, ∃ k, keyOf x = .ok k ∧ k.number?.isSome := by
    intro x hx
    obtain ⟨node, hnode, hposition, -⟩ := hg.nodes x (mem_of_mem_filter hx)
    unfold keyOf
    rw [hnode]
    exact distance_ok hposition
  obtain ⟨ids, hids⟩ := Workflow.endNodes_ok hkeys
  have hwarnings : (keyAll g.sinks).1 = [] := warnings_keyAll fun x hx => by
    obtain ⟨node, hnode, -⟩ := hg.nodes x (mem_of_mem_filter hx)
    rw [hnode]
    rfl
  exact ⟨ids, Prod.ext hwarnings hids⟩

include h

theorem keptLink_of_edge {e : Edge} (he : e ∈ g.edges) : g.KeptLink nodesInfo e.source e.target := by
  obtain ⟨x, hx, hid, node, hnode, input, hinput, number, link, hnumber, hlink, hsource⟩ := hg.edges e he
  obtain ⟨node', hnode', -, hplain⟩ := hg.nodes x hx
  cases hnode.symm.trans hnode'
  exact ⟨node, _, hid ▸ h.nodeOf_of_mem hx hnode, (h.legible x hx node hnode).keptInputs_of_plain hplain,
    input, hinput, number, link, hnumber, hlink, hsource⟩

theorem exists_sink {x : Vertex} (hx : x ∈ g.vertices) :
    ∃ s ∈ g.sinks, ReflTransGen (g.KeptLink nodesInfo) x.id s.id := by
  have hclosed : ∀ y ∈ g.vertices.map Vertex.id, ∀ z, g.Adjacent y z → z ∈ g.vertices.map Vertex.id := by
    rintro y - z ⟨e, he, -, rfl⟩
    obtain ⟨v, hv, hid, -⟩ := hg.edges e he
    exact hid ▸ mem_map_of_mem hv
  obtain ⟨y, hy, hpath, hstop⟩ := exists_end hg.acyclic hclosed (mem_map_of_mem hx)
  obtain ⟨s, hs, rfl⟩ := mem_map.mp hy
  have hsink : s ∈ g.sinks := by
    refine mem_filter.mpr ⟨hs, ?_⟩
    rw [Bool.not_eq_true', List.any_eq_false]
    intro e he heq
    obtain ⟨v, hv, -, node, hnode, input, hinput, number, link, hnumber, hlink, hsource⟩ := hg.edges e he
    -- the source of an edge is that of a link, so it is a node
    obtain ⟨link', hlink', hmem⟩ := h.links v hv node hnode input hinput number hnumber
    cases hlink.symm.trans hlink'
    obtain ⟨w, hw, hwid, -⟩ := exists_of_mem_nodeIds hmem
    have hsourceId : e.source.IsId := hsource ▸ hwid ▸ h.ids w hw
    exact hstop e.target ⟨e, he, (hsourceId.beq_iff (h.ids s hs)).mp heq, rfl⟩
  refine ⟨s, hsink, ReflTransGen.mono ?_ _ _ hpath⟩
  rintro y z ⟨e, he, rfl, rfl⟩
  exact hg.keptLink_of_edge h he

end Consistent

/-- The visiting order. For all end nodes there is one, and the recursion comes to its end even where
links lead in circles: it has no node twice, and exactly the nodes that the end nodes reach along the
links of kept inputs; if these links lead in no circle, each node comes after their sources. If no
end nodes are given, a graph without circles has all its nodes in the order. -/
theorem order_reaches {g : Graph} {nodesInfo : Value} (h : g.WellLinked nodesInfo) :
    (∀ ends, (∀ e ∈ ends, e ∈ g.nodeIds) → ∃ visited ids,
      order nodesInfo g (some (.list ends)) = ([], ⟨ids, none⟩) ∧
      Journey (sources nodesInfo g) ⟨[], [], none⟩ ends ⟨visited, ids, none⟩ ∧ ids.Nodup ∧
      (∀ x, x ∈ ids ↔ ∃ e ∈ ends, ReflTransGen (g.KeptLink nodesInfo) x e) ∧
      ((∀ x ∈ ids, ¬ TransGen (g.KeptLink nodesInfo) x x) →
        ∀ earlier x later, ids = earlier ++ x :: later → ∀ y, g.KeptLink nodesInfo y x → y ∈ earlier)) ∧
    (g.Consistent → ∃ ids, order nodesInfo g none = ([], ⟨ids, none⟩) ∧
      ∀ x ∈ g.vertices, x.id ∈ ids) := by
  constructor
  · intro ends hends
    have horder : order nodesInfo g (some (.list ends)) =
      ([], ⟨(walkFrom nodesInfo g ends).order, (walkFrom nodesInfo g ends).fault⟩) := rfl
    obtain ⟨hjourney, hfault, hnodup, hmem, hsorted⟩ := h.walkFrom_spec hends
    generalize walkFrom nodesInfo g ends = walk at horder hjourney hfault hnodup hmem hsorted
    obtain ⟨visited, ids, fault⟩ := walk
    obtain rfl : fault = none := hfault
    exact ⟨visited, ids, horder, hjourney, hnodup, hmem, hsorted⟩
  · intro hg
    obtain ⟨ends, hends⟩ := hg.endNodes_ok
    have hperm : ends.Perm (g.sinks.map Vertex.id) := perm_of_endNodes (congrArg Prod.snd hends)
    have hnodes : ∀ e ∈ ends, e ∈ g.nodeIds := by
      intro e he
      obtain ⟨s, hs, rfl⟩ := List.mem_map.mp (hperm.mem_iff.mp he)
      exact hg.mem_nodeIds (List.mem_of_mem_filter hs)
    obtain ⟨-, hfault, -, hmem, -⟩ := h.walkFrom_spec hnodes
    refine ⟨(walkFrom nodesInfo g ends).order, ?_, fun x hx => ?_⟩
    · unfold order
      simp only [hends, hfault]
    · obtain ⟨s, hs, hpath⟩ := hg.exists_sink h hx
      exact (hmem x.id).mpr ⟨s.id, hperm.mem_iff.mpr (List.mem_map_of_mem hs), hpath⟩

/-! ### A circle through a switch -/

def imageInput (name : String) (link : Value) : Value :=
  .record [("name", .str name), ("type", .str "IMAGE"), ("link", link)]

def imageNode (id : Int) (type : String) (inputs widgets : List Value) : Vertex :=
  ⟨.int id, some (.record [("id", .int id), ("type", .str type), ("pos", .list [.int id, .int 0]),
    ("inputs", .list inputs), ("widgets_values", .list widgets)]), none⟩

def imageType (inputs : List (String × Value)) : Value :=
  .dict [("input", .dict [("required", .dict inputs)])]

def imageTypes : Value := .dict [
  ("Blur", imageType [("image", .list [.str "IMAGE"])]),
  ("CR Image Input Switch", imageType [("Input", .list [.str "INT", .dict [("default", .int 1)]]),
    ("image1", .list [.str "IMAGE"]), ("image2", .list [.str "IMAGE"])])]

def switchRing : Graph where
  vertices := [
    imageNode 1 "CR Image Input Switch"
      [imageInput "image1" (.int 10), imageInput "image2" (.int 11)] [.int 1],
    imageNode 2 "Blur" [imageInput "image" .null] [],
    imageNode 3 "Blur" [imageInput "image" (.int 12)] []]
  edges := [⟨.int 3, .int 1, .int 10, .int 0, .int 0, .str "IMAGE"⟩,
    ⟨.int 2, .int 1, .int 11, .int 0, .int 1, .str "IMAGE"⟩,
    ⟨.int 1, .int 3, .int 12, .int 0, .int 0, .str "IMAGE"⟩]
  links := [⟨.int 10, .int 3, .int 1, .int 10⟩, ⟨.int 11, .int 2, .int 1, .int 11⟩,
    ⟨.int 12, .int 1, .int 3, .int 12⟩]

def blurChain : Graph where
  vertices := [imageNode 1 "Blur" [imageInput "image" (.int 10)] [],
    imageNode 2 "Blur" [imageInput "image" .null] []]
  edges := [⟨.int 2, .int 1, .int 10, .int 0, .int 0, .str "IMAGE"⟩]
  links := [⟨.int 10, .int 2, .int 1, .int 10⟩]

theorem isInput_imageInput (name : String) (link : Value) : IsInput (imageInput name link) :=
  ⟨rfl, rfl, rfl⟩

theorem isKnown_imageTypes {type : String} (h : type ∈ ["Blur", "CR Image Input Switch"]) :
    IsKnown imageTypes type := by
  have hconfig (v : Value) (rest : List Value) : IsConfig (.list (v :: rest)) := ⟨v, rest, .inl rfl⟩
  rcases mem_pair.mp h with rfl | rfl
  · exact .described rfl rfl rfl (.inl rfl) (.inr ⟨rfl, .inl rfl⟩) (by simp [hconfig])
  · exact .described rfl rfl rfl (.inl rfl) (.inr ⟨rfl, .inl rfl⟩) (by simp [hconfig])

theorem legible_imageNode {id : Int} {type : String} {inputs widgets : List Value} {node : Value}
    (htype : type ∈ ["Blur", "CR Image Input Switch"]) (hinputs : ∀ i ∈ inputs, IsInput i)
    (hnode : (imageNode id type inputs widgets).node = some node) : Legible imageTypes node := by
  obtain rfl := some.inj hnode
  exact ⟨⟨type, rfl, isKnown_imageTypes htype⟩, .inr ⟨inputs, rfl⟩, hinputs,
    fun values hvalues => .inl ⟨widgets, (some.inj hvalues).symm⟩⟩

theorem wellLinked_switchRing : switchRing.WellLinked imageTypes where
  ids := by simp [switchRing, imageNode, Value.IsId]
  nodup := by simp [switchRing, imageNode]
  legible := by
    simp only [switchRing, forall_mem_cons, not_mem_nil, false_imp_iff, implies_true, and_true]
    exact ⟨fun node => legible_imageNode (by decide) (by simp [isInput_imageInput]),
      fun node => legible_imageNode (by decide) (by simp [isInput_imageInput]),
      fun node => legible_imageNode (by decide) (by simp [isInput_imageInput])⟩
  links := by
    simp only [switchRing, forall_mem_cons, not_mem_nil, false_imp_iff, implies_true, and_true]
    refine ⟨fun node hnode input hinput number hnumber => ?_, fun node hnode input hinput number hnumber => ?_,
      fun node hnode input hinput number hnumber => ?_⟩
    · obtain rfl := some.inj hnode
      rcases mem_pair.mp hinput with rfl | rfl
      · exact some.inj hnumber ▸ ⟨_, rfl, .tail _ (.tail _ (.head _))⟩
      · exact some.inj hnumber ▸ ⟨_, rfl, .tail _ (.head _)⟩
    · obtain rfl := some.inj hnode
      obtain rfl := mem_singleton.mp hinput
      cases hnumber
    · obtain rfl := some.inj hnode
      obtain rfl := mem_singleton.mp hinput
      exact some.inj hnumber ▸ ⟨_, rfl, .head _⟩

theorem wellLinked_blurChain : blurChain.WellLinked imageTypes where
  ids := by simp [blurChain, imageNode, Value.IsId]
  nodup := by simp [blurChain, imageNode]
  legible := by
    simp only [blurChain, forall_mem_cons, not_mem_nil, false_imp_iff, implies_true, and_true]
    exact ⟨fun node => legible_imageNode (by decide) (by simp [isInput_imageInput]),
      fun node => legible_imageNode (by decide) (by simp [isInput_imageInput])⟩
  links := by
    simp only [blurChain, forall_mem_cons, not_mem_nil, false_imp_iff, implies_true, and_true]
    refine ⟨fun node hnode input hinput number hnumber => ?_, fun node hnode input hinput number hnumber => ?_⟩
    · obtain rfl := some.inj hnode
      obtain rfl := mem_singleton.mp hinput
      exact some.inj hnumber ▸ ⟨_, rfl, .tail _ (.head _)⟩
    · obtain rfl := some.inj hnode
      obtain rfl := mem_singleton.mp hinput
      cases hnumber

theorem consistent_blurChain : blurChain.Consistent where
  nodes := by
    have hplain : ∀ m ∈ multiplexers, Value.str "Blur" ≠ .str m.nodeType := by
      intro m hm heq
      have hnames : "Blur" ∉ multiplexers.map Multiplexer.nodeType := by decide
      exact hnames (mem_map.mpr ⟨m, hm, (Value.str.inj heq).symm⟩)
    have hposition (id : Int) {v : Value} (hv : v.field? "pos" = some (.list [.int id, .int 0])) :
        HasPosition v := .inl ⟨_, hv, by simp [Value.number?]⟩
    simp only [blurChain, forall_mem_cons, not_mem_nil, false_imp_iff, implies_true, and_true]
    exact ⟨⟨_, rfl, hposition 1 rfl, hplain⟩, _, rfl, hposition 2 rfl, hplain⟩
  edges := by
    simp only [blurChain, forall_mem_cons, not_mem_nil, false_imp_iff, implies_true, and_true]
    exact ⟨_, .head _, rfl, _, rfl, _, .head _, .int 10, _, rfl, rfl, rfl⟩
  acyclic := by
    -- the only edge leads from the second node to the first
    have hedge {x y : Value} (h : blurChain.Adjacent x y) : x = .int 2 ∧ y = .int 1 := by
      obtain ⟨e, he, rfl, rfl⟩ := h
      obtain rfl := mem_singleton.mp he
      exact ⟨rfl, rfl⟩
    intro x hcycle
    obtain ⟨y, hfirst, -⟩ := TransGen.head'_iff.mp hcycle
    obtain ⟨z, -, hlast⟩ := TransGen.tail'_iff.mp hcycle
    cases (hedge hfirst).1.symm.trans (hedge hlast).2

/-- The blur of the ring comes before the switch although the switch feeds it, and the image that the
switch leaves aside is not needed; the chain is in the order as a whole. -/
theorem order_reaches_switchRing :
    (∃ visited, order imageTypes switchRing (some (.list [.int 1])) = ([], ⟨[.int 3, .int 1], none⟩) ∧
      Journey (sources imageTypes switchRing) ⟨[], [], none⟩ [.int 1] ⟨visited, [.int 3, .int 1], none⟩ ∧
      ∀ x, x ∈ [Value.int 3, .int 1] ↔ ReflTransGen (switchRing.KeptLink imageTypes) x (.int 1)) ∧
    ∃ ids, order imageTypes blurChain none = ([], ⟨ids, none⟩) ∧ ∀ x ∈ blurChain.vertices, x.id ∈ ids := by
  refine ⟨?_, (order_reaches wellLinked_blurChain).2 consistent_blurChain⟩
  have hends : ∀ e ∈ [Value.int 1], e ∈ switchRing.nodeIds := by
    simp only [List.mem_singleton, forall_eq]
    exact .head _
  have horder : order imageTypes switchRing (some (.list [.int 1])) = ([], ⟨[.int 3, .int 1], none⟩) := rfl
  obtain ⟨visited, ids, hids, hjourney, -, hmem, -⟩ :=
    (order_reaches wellLinked_switchRing).1 [.int 1] hends
  obtain rfl : [.int 3, .int 1] = ids := by
    rw [horder, Prod.mk.injEq, Reading.mk.injEq] at hids
    exact hids.2.1
  exact ⟨visited, horder, hjourney, by simpa using hmem⟩

end Graph

end Flowscript.Workflow
