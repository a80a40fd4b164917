import Flowscript.Proofs.Workflow.Refusal
import Flowscript.Proofs.Workflow.Wiring

/-!
# Multiplexers with nothing to hide

A multiplexer with a chosen input is dropped, on the condition that its statement has an underscore:
the inputs that are left aside come from nodes without a statement, and an underscore stands for each
of them. But such a node may have got a statement already, because something else needs it. If this is
so for all links of a multiplexer, and no underscore stands anywhere else, then the multiplexer is
refused and there is no script.
-/

namespace Flowscript.Workflow

variable {nodesInfo : Value} {d d' : Draft} {f : Fault} {type : String} {subject : Subject} {id : Value}
  {k : Sketch} {a : Argument}

/-! ## What the passes refuse -/

theorem not_mem_switches (h : type ∈ multiplexers.map Multiplexer.nodeType) :
    type ∉ switches.map Switch.nodeType := by
  have hall : ∀ type ∈ multiplexers.map Multiplexer.nodeType, type ∉ switches.map Switch.nodeType := by
    decide
  exact hall type h

theorem unrefused_dropSwitchedOff (hwidget : ∀ name, Unrefused (subject.widget name)) (text : String) :
    Unrefused (dropSwitchedOff subject text) := by
  have hany (listed : List (String × Value)) : Unrefused (hasAny subject.widget listed) := by
    induction listed with
    | nil => exact unrefused_ok _
    | cons entry rest ih =>
      unfold hasAny
      refine (hwidget _).bind fun v => ?_
      split
      · exact unrefused_ok _
      · exact ih
  unfold dropSwitchedOff
  split
  · exact unrefused_error rfl
  · split
    · exact unrefused_ok _
    · exact (hany _).bind fun _ => unrefused_ok _

theorem dropSwitchedOff_of_not_mem (htype : subject.type = .str type)
    (hnot : type ∉ switches.map Switch.nodeType) (text : String) :
    dropSwitchedOff subject text = .ok text := by
  have hnone : (switches.find? fun s => subject.type == .str s.nodeType) = none := by
    rw [List.find?_eq_none]
    intro s hs heq
    rw [htype, Value.str_beq_str, beq_iff_eq] at heq
    exact hnot (heq ▸ List.mem_map_of_mem hs)
  unfold dropSwitchedOff
  rw [hnone, htype]
  rfl

theorem dropMultiplexer_of_mem (htype : subject.type = .str type)
    (hmem : type ∈ multiplexers.map Multiplexer.nodeType) (hchosen : subject.chosen = true) (text : String) :
    dropMultiplexer subject text =
      if '_' ∈ text.toList then .ok "" else .error (.unexpectedStatement text) := by
  obtain ⟨m, hm, hname⟩ := List.mem_map.mp hmem
  have hsome : (multiplexers.find? fun m => Value.str type == .str m.nodeType).isSome = true := by
    rw [List.find?_isSome]
    exact ⟨m, hm, by rw [hname, Value.str_beq_str, beq_self_eq_true]⟩
  obtain ⟨found, hfound⟩ := Option.isSome_iff_exists.mp hsome
  have hlookup : multiplexer? (.str type) = .ok (some found) := congrArg Except.ok hfound
  unfold dropMultiplexer
  rw [hchosen, htype, hlookup]
  simp only [Bool.not_true, Bool.false_eq_true, if_false, ok_bind, List.contains_iff_mem]

/-- What the passes refuse of nodes that neither pass on a value nor hold a literal: the statements of
multiplexers with a choice that are no moves and have no underscore. -/
theorem eliminate_refused_iff {text : String} (htype : subject.type = .str type)
    (hreroute : type ∉ rerouteTypes) (hliteral : type ≠ "PrimitiveNode")
    (hchosen : subject.chosen = true → type ∈ multiplexers.map Multiplexer.nodeType)
    (hwidget : ∀ name, Unrefused (subject.widget name)) (hne : text ≠ "") (hf : f.isRefusal = true) :
    eliminate subject text = .error f ↔ subject.chosen = true ∧ ¬ ReadsAsMove text ∧
      '_' ∉ text.toList ∧ f = .unexpectedStatement text := by
  have hempty : text.isEmpty = false := by simpa using hne
  have hfirst : dropReroute subject text = .ok text := by
    simp [dropReroute, htype, typeIn_str, hreroute]
  have hthird : inlineLiteral subject text = .ok text := by simp [inlineLiteral, htype, hliteral]
  rw [← movesToItself_iff, Bool.not_eq_true]
  cases hmoves : movesToItself text with
  | true =>
    simp only [eliminate, passes, runPasses, hfirst, ok_bind, hempty, dropMove, hmoves, if_true]
    simp
  | false =>
    have hrest : eliminate subject text = runPasses subject [dropSwitchedOff, dropMultiplexer] text := by
      simp only [eliminate, passes, runPasses, hfirst, hthird, ok_bind, hempty, dropMove, hmoves,
        Bool.false_eq_true, if_false]
    rw [hrest]
    -- without a choice the last pass leaves the statement, and the one before it refuses nothing
    cases hchoice : subject.chosen with
    | false =>
      have hunrefused : Unrefused (runPasses subject [dropSwitchedOff, dropMultiplexer] text) := by
        refine (unrefused_dropSwitchedOff hwidget text).bind fun line => ?_
        split
        · exact unrefused_ok _
        · have hlast : dropMultiplexer subject line = .ok line := by simp [dropMultiplexer, hchoice]
          rw [runPasses, hlast, ok_bind]
          split <;> exact unrefused_ok _
      constructor
      · intro h
        rw [hunrefused f h] at hf
        cases hf
      · rintro ⟨⟨⟩, -⟩
    | true =>
      have hmem := hchosen hchoice
      rw [runPasses, dropSwitchedOff_of_not_mem htype (not_mem_switches hmem), ok_bind, hempty,
        if_neg Bool.false_ne_true, runPasses, dropMultiplexer_of_mem htype hmem hchoice]
      by_cases hmark : '_' ∈ text.toList
      · rw [if_pos hmark, ok_bind]
        simp [hmark]
      · rw [if_neg hmark]
        exact ⟨fun h => ⟨rfl, rfl, hmark, (Except.error.inj h).symm⟩, fun h => h.2.2.2 ▸ rfl⟩

theorem mem_multiplexers_of_choiceOfNode {node : Value} {choice : Multiplexer × String}
    (htype : node.field? "type" = some (.str type)) (h : choiceOfNode nodesInfo node = .ok (some choice)) :
    type ∈ multiplexers.map Multiplexer.nodeType := by
  by_contra hnot
  unfold choiceOfNode at h
  obtain ⟨widgets, -, h⟩ := ok_of_bind h
  split at h
  · cases h
  · rw [field_eq_ok_iff.mpr htype, ok_bind, choice?_of_not_mem hnot] at h
    cases h

/-- A node that is in use, and neither passes on a value nor holds a literal. -/
structure IsDirect (node : Value) : Prop where
  mode : node.field? "mode" = some (.int 0)
  type : ∃ type, node.field? "type" = some (.str type) ∧ type ∉ rerouteTypes ∧ type ≠ "PrimitiveNode"

theorem contribute_refused_iff (hk : k.Of nodesInfo id d) (hdirect : IsDirect k.node)
    (hf : f.isRefusal = true) :
    contribute nodesInfo id k.node k.mode k.type k.callee k.named k.targets = .error f ↔
      (∃ choice, choiceOfNode nodesInfo k.node = .ok (some choice)) ∧ ¬ ReadsAsMove k.statement.text ∧
        '_' ∉ k.statement.text.toList ∧ f = .unexpectedStatement k.statement.text := by
  obtain ⟨hmode, type, htype, hreroute, hliteral⟩ := hdirect
  have hkmode : k.mode = .int 0 := Except.ok.inj (hk.mode.symm.trans (field_eq_ok_iff.mpr hmode))
  have hktype : k.type = .str type := Except.ok.inj (hk.type.symm.trans (field_eq_ok_iff.mpr htype))
  have hstatement : statementOf k.mode k.callee k.targets = some k.statement :=
    statementOf_sketch k (hkmode ▸ rfl)
  unfold contribute
  rw [hstatement]
  dsimp only
  cases hchoice : choiceOfNode nodesInfo k.node with
  | error e =>
    have hunrefused := unrefused_choiceOfNode nodesInfo k.node e hchoice
    constructor
    · intro h
      rw [Except.error.inj h, hf] at hunrefused
      cases hunrefused
    · rintro ⟨⟨choice, ⟨⟩⟩, -⟩
  | ok choice =>
    have hwidget (name : String) : Unrefused ((subjectOf k.type k.named choice.isSome).widget name) := by
      unfold subjectOf
      dsimp only
      split
      · exact unrefused_ok _
      · exact unrefused_error rfl
    have hchosen : choice.isSome = true → type ∈ multiplexers.map Multiplexer.nodeType := by
      intro hsome
      obtain ⟨chosen, rfl⟩ := Option.isSome_iff_exists.mp hsome
      exact mem_multiplexers_of_choiceOfNode htype hchoice
    have hpasses : eliminate (subjectOf k.type k.named choice.isSome) k.statement.text = .error f ↔ _ :=
      eliminate_refused_iff hktype hreroute hliteral hchosen hwidget k.statement.text_ne_empty hf
    have hsome : choice.isSome = true ↔ ∃ chosen, (.ok choice : Except Fault _) = .ok (some chosen) := by
      rw [Option.isSome_iff_exists]
      exact exists_congr fun chosen => ⟨congrArg Except.ok, Except.ok.inj⟩
    rw [← hsome, ok_bind]
    refine Iff.trans ?_ hpasses
    cases eliminate (subjectOf k.type k.named choice.isSome) k.statement.text with
    | ok line =>
      rw [ok_bind]
      simp
    | error e => exact ⟨fun h => congrArg _ (Except.error.inj h), fun h => congrArg _ (Except.error.inj h)⟩

/-! ## Underscores in statements -/

theorem mem_joinTexts_iff {texts : List String} {c : Char} (hc : c ∉ ", ".toList) :
    c ∈ (joinTexts texts).toList ↔ ∃ t ∈ texts, c ∈ t.toList := by
  refine ⟨fun h => (mem_joinTexts h).resolve_left hc, ?_⟩
  rintro ⟨t, ht, hmem⟩
  rw [joinTexts, String.toList_intercalate]
  induction texts with
  | nil => cases ht
  | cons u rest ih =>
    cases rest with
    | nil =>
      obtain rfl := List.mem_singleton.mp ht
      simpa using hmem
    | cons v rest =>
      rw [List.map_cons, List.map_cons, List.intercalate_cons_cons, ← List.map_cons, List.mem_append,
        List.mem_append]
      rcases List.mem_cons.mp ht with rfl | ht
      · exact .inl (.inl hmem)
      · exact .inr (ih ht)

theorem mem_text_sketch_iff : '_' ∈ k.statement.text.toList ↔
    '_' ∈ k.callee.toList ∨ (∃ x ∈ k.targets.names, '_' ∈ x.toList) ∨
      ∃ a ∈ k.targets.arguments, '_' ∈ a.text.toList := by
  have hjoined {texts : List String} : '_' ∈ (joinTexts texts).toList ↔ ∃ t ∈ texts, '_' ∈ t.toList :=
    mem_joinTexts_iff (by decide)
  have hmark : '_' ∉ (if k.statement.commented then "# " else "").toList := by split <;> decide
  have htargets : '_' ∈ (if k.statement.targets.isEmpty then "" else
      joinTexts k.statement.targets ++ " = ").toList ↔ ∃ x ∈ k.targets.names, '_' ∈ x.toList := by
    change _ ↔ ∃ x ∈ k.statement.targets, _
    split
    next hnil =>
      rw [List.isEmpty_iff.mp hnil]
      simp
    · rw [String.toList_append, List.mem_append, hjoined]
      exact or_iff_left (by decide)
  have hcall : k.statement.expression = .call k.callee k.targets.arguments := rfl
  have hopen : '_' ≠ '(' := by decide
  have hend : '_' ∉ [')', '\n'] := by decide
  rw [toList_text_call hcall, String.toList_append, String.toList_append, List.mem_append, List.mem_append,
    List.mem_append, List.mem_cons, List.mem_append, hjoined, htargets, or_iff_right hmark,
    or_iff_left hend, or_iff_right hopen, or_assoc, or_left_comm]
  simp only [List.mem_map, exists_exists_and_eq_and]

/-! ## Links that are left open -/

theorem hole_of_linkedArgument_iff {g : Graph} {input link : Value} {e : Edge}
    (h : linkedArgument g input link = .ok a) (he : g.endOf link = .ok e) :
    (∃ type, a = .hole type) ↔ ∀ slot, g.heldAt e.source slot = none := by
  obtain ⟨e', v, he', hv, hcases⟩ := linkedArgument_cases h
  obtain rfl := Except.ok.inj (he.symm.trans he')
  obtain ⟨hnone, hhole⟩ | ⟨ids, name, type, mayMove, -, -, rfl⟩ := hcases
  · refine ⟨fun _ slot => ?_, fun _ => hhole⟩
    rw [Graph.heldAt, hv, Option.bind_some, hnone]
    rfl
  · have hheld : some name = g.heldAt e.source e.sourceSlot := name?_of_linkedArgument h he
    constructor
    · rintro ⟨type', ⟨⟩⟩
    · intro hnone
      rw [hnone] at hheld
      cases hheld

theorem endOf_of_linkedArgument {g : Graph} {input link : Value} (h : linkedArgument g input link = .ok a) :
    ∃ e, g.endOf link = .ok e := by
  obtain ⟨e, he, -⟩ := ok_of_bind h
  exact ⟨e, he⟩

theorem Argument.eq_hole_of_keep {type : Value} (h : a.keep = (Argument.hole type).keep) :
    a = .hole type := by
  cases a with
  | held name type' mayMove => cases h
  | _ => exact h

theorem exists_widget_of_find? {node type : Value} {widgets : List (String × Argument)}
    (h : widgetArguments nodesInfo node type = .ok widgets) {name : String}
    (ha : Table.find? name widgets = some a) : ∃ v, a = .widget v := by
  unfold widgetArguments at h
  split at h
  · cases h
    cases ha
  · obtain ⟨values, -, h⟩ := ok_of_bind h
    obtain rfl := Except.ok.inj h
    rw [find?_map_widget] at ha
    obtain ⟨v, -, rfl⟩ := Option.map_eq_some_iff.mp ha
    exact ⟨v, rfl⟩

theorem hole_of_run_sketch_iff (h : (sketch nodesInfo id).run d = (.ok k, d'))
    (hnames : ∀ i ∈ inputsOf k.node, ∀ j ∈ inputsOf k.node, linkNumber? i ≠ none →
      linkNumber? j ≠ none → nameOf? i = nameOf? j → i = j)
    (hlinks : ∀ o ∈ outputsOf k.node, ListsLinks o) :
    (∃ type, .hole type ∈ k.targets.arguments) ↔ ∃ p input link e,
      ArgumentAt nodesInfo k.node p input link ∧ d.graph.endOf link = .ok e ∧
        ∀ slot, d.graph.heldAt e.source slot = none := by
  obtain ⟨name, widgets, inputs, arguments, -, -, htype, -, -, hwidgets, hinputs, hlinked, harguments,
    htargets⟩ := run_sketch_iff.mp h
  obtain ⟨hkept, -⟩ := of_run_assignOutputs_records hlinks htargets
  obtain ⟨hput, hother⟩ := find?_of_linkedArguments hlinked fun i hi j hj =>
    hnames i (hinputs.perm.mem_iff.mp hi) j (hinputs.perm.mem_iff.mp hj)
  rw [positional_eq, ← typeOf_of_field htype] at harguments
  obtain ⟨names, hdeclared, rfl⟩ := ok_of_map harguments
  constructor
  · rintro ⟨type, hmem⟩
    obtain ⟨a, ha, hkeep⟩ := hkept.exists_mem hmem
    obtain rfl := Argument.eq_hole_of_keep hkeep
    obtain ⟨declared, hmem, hread⟩ := List.mem_map.mp ha
    obtain ⟨name, rfl, hfind⟩ : ∃ name, declared = some name ∧
        Table.find? name k.named = some (.hole type) := by
      cases declared with
      | none => cases hread
      | some name =>
        rw [Option.bind_some] at hread
        cases hfind : Table.find? name k.named with
        | none =>
          rw [hfind] at hread
          cases hread
        | some b =>
          rw [hfind] at hread
          exact ⟨name, rfl, hfind.trans (congrArg some hread)⟩
    obtain ⟨p, hp⟩ := List.getElem?_of_mem hmem
    -- an open argument is no widget, so there is a linked input of this name
    by_cases hinput : ∃ i ∈ inputs.getD [], linkNumber? i ≠ none ∧ nameOf? i = some name
    · obtain ⟨i, hi, hne, hname⟩ := hinput
      obtain ⟨link, hlink⟩ := Option.ne_none_iff_exists'.mp hne
      obtain ⟨b, hb, hfind'⟩ := hput i hi link name hlink hname
      obtain rfl := Option.some.inj (hfind.symm.trans hfind')
      obtain ⟨e, he⟩ := endOf_of_linkedArgument hb
      have hnone := (hole_of_linkedArgument_iff hb he).mp ⟨type, rfl⟩
      refine ⟨p, i, link, e, ⟨hinputs.perm.mem_iff.mp hi, hlink, names, name, hdeclared, hp, hname⟩,
        he, fun slot => ?_⟩
      rw [← hnone slot, Graph.heldAt_ofInputs]
    · rw [hother name fun i hi hne hname => hinput ⟨i, hi, hne, hname⟩] at hfind
      obtain ⟨v, ⟨⟩⟩ := exists_widget_of_find? hwidgets hfind
  · rintro ⟨p, input, link, e, hargument, he, hnone⟩
    obtain ⟨declared, name, hdeclared', hp, hname⟩ := hargument.declared
    obtain rfl := Except.ok.inj (hdeclared.symm.trans hdeclared')
    obtain ⟨a, ha, hfind⟩ := hput input (hinputs.perm.mem_iff.mpr hargument.mem) link name
      hargument.link hname
    obtain ⟨type, rfl⟩ := (hole_of_linkedArgument_iff ha he).mpr fun slot => by
      rw [Graph.heldAt_ofInputs, hnone]
    have hget : (names.map fun name => (name.bind fun name => Table.find? name k.named).getD
        Argument.absent)[p]? = some (.hole type) := by
      rw [List.getElem?_map, hp, Option.map_some, Option.bind_some, hfind]
      rfl
    obtain ⟨b, hb, hkeep⟩ := hkept.symm.exists_getElem? hget
    exact ⟨type, Argument.eq_hole_of_keep hkeep ▸ List.mem_of_getElem? hb⟩

/-! ## Links of sheets -/

theorem Emission.Gives.exists_heldAt {e : Emission} {c : Contribution}
    (h : e.Gives nodesInfo id d.graph d.names c d'.names) (hemit : (emit nodesInfo id).run d = (.ok c, d'))
    {x : Vertex} (hx : d.graph.vertex? id = some x) (hfresh : x.outputIds = none)
    (hlinks : ∀ o ∈ outputsOf e.node, ListsLinks o) (hslots : SlotsMatch (outputsOf e.node)) {o : Value}
    (ho : o ∈ outputsOf e.node) (hused : linksOf o ≠ []) :
    ∃ slot name, d'.graph.heldAt id slot = some name := by
  obtain ⟨hlength, sorted, hsorted, -, hheld⟩ := h.heldAt hemit hx hfresh hlinks
  obtain ⟨positions, -, hpositions⟩ := exists_positions (fun p o => placeOfOutput_eq hslots) hsorted
  have hperm := perm_of_sortOn hsorted
  obtain ⟨i, hi⟩ := List.getElem?_of_mem (hperm.mem_iff.mpr ho)
  obtain ⟨name, hname⟩ : ∃ name, e.targets.names[i]? = some name := by
    have hlt := (List.getElem?_eq_some_iff.mp hi).1
    rw [hperm.length_eq, ← hlength] at hlt
    exact ⟨_, List.getElem?_eq_getElem hlt⟩
  have hrecorded : (slotOf o (sorted.length == 1) i, name) ∈ recordsIn sorted e.targets.names :=
    mem_recordsIn_iff.mpr ⟨i, o, hi, hname, hused, rfl⟩
  obtain ⟨s, hs⟩ := exists_int_of_mem_recordsIn hslots hpositions hrecorded
  have hslot : slotOf o (sorted.length == 1) i = .int s := hs
  obtain ⟨x, hx⟩ := (heldIn_spec hslots hpositions s).2 name (hslot ▸ hrecorded)
  exact ⟨.int s, x, (hheld s).trans hx⟩

namespace Sheet

/-- A multiplexer whose turn has come after `before`: it has made a choice, all nodes where its links
start have their statements, no other part of its statement has an underscore, and the statement does
not read as a move. -/
structure Exposed (sheet : Sheet) (nodesInfo : Value) (before : List Value) (n : Value × Value)
    (k : Sketch) : Prop where
  chosen : ∃ choice, choiceOfNode nodesInfo n.2 = .ok (some choice)
  written : ∀ p input link e, ArgumentAt nodesInfo n.2 p input link → sheet.graph.endOf link = .ok e →
    e.source ∈ before
  callee : '_' ∉ k.callee.toList
  targets : ∀ x ∈ k.targets.names, '_' ∉ x.toList
  arguments : ∀ a ∈ k.targets.arguments, (∀ type, a ≠ .hole type) → '_' ∉ a.text.toList
  unmoved : ¬ ReadsAsMove k.statement.text

namespace Coherent

variable {sheet : Sheet} (h : sheet.Coherent)

section Runs

variable {before : List Value} {cs : List Contribution} (hids : ∀ id ∈ before, id.IsId)
  (hnodup : before.Nodup)
  (hrun : (Transpiler.emitAll nodesInfo before).run ⟨sheet.graph, []⟩ = (.ok cs, d))

include h hids hnodup hrun

theorem heldAt_source_iff {link : Value} {e : Edge} (he : sheet.graph.endOf link = .ok e) :
    (∀ slot, d.graph.heldAt e.source slot = none) ↔ e.source ∉ before := by
  obtain ⟨hnodes, hspares⟩ := spares_emitAll h.distinct_graph hids hrun
  obtain ⟨m, hm, hsource, s, o, -, ho, hlinks⟩ := h.source e (mem_edges_of_endOf he)
  rw [← hsource]
  refine ⟨fun hnone hmem => ?_, fun hnew => h.heldAt_eq_none hm hnew hspares⟩
  -- the statement of the node has recorded a variable, and all later ones have left it
  rw [← hnodes] at hmem
  obtain ⟨c, hc, hid⟩ := List.mem_map.mp hmem
  obtain ⟨earlier, later, hsplit⟩ := List.append_of_mem hc
  obtain ⟨first, rest, d₁, d₂, rfl, -, hemit, hrest, hnew, hlast, hfirst, hown⟩ :=
    of_run_emitAll_nodup h.distinct_graph hids hnodup hrun hsplit
  obtain ⟨-, hlater⟩ := spares_emitAll hown.distinct (fun id hid => hids id (by simp [hid])) hrest
  rw [hid] at hemit hnew hlast
  obtain ⟨g, hg⟩ := exists_gives hemit
  obtain ⟨hvertex, hnode⟩ := h.node_eq hm hnew hfirst hg.node
  obtain ⟨slot, x, hx⟩ := hg.exists_heldAt hemit hvertex rfl (hnode ▸ h.links m hm)
    (hnode ▸ h.slots m hm) (hnode ▸ List.mem_of_getElem? ho) (List.ne_nil_of_mem hlinks)
  rw [← hlater.heldAt (h.ids m hm) hlast, hnone] at hx
  cases hx

variable {n : Value × Value} (hn : n ∈ sheet.nodes) (hnew : n.1 ∉ before) {k : Sketch}
  (hk : (sketch nodesInfo n.1).run d = (.ok k, d'))

include hn hnew hk

theorem hole_iff : k.node = n.2 ∧ ((∃ type, .hole type ∈ k.targets.arguments) ↔
    ∃ p input link e, ArgumentAt nodesInfo n.2 p input link ∧ sheet.graph.endOf link = .ok e ∧
      e.source ∉ before) := by
  obtain ⟨-, hspares⟩ := spares_emitAll h.distinct_graph hids hrun
  obtain ⟨-, hnode⟩ := h.node_eq hn hnew hspares (of_run_sketch hk).node
  refine ⟨hnode, ?_⟩
  rw [hole_of_run_sketch_iff hk (hnode ▸ h.names n hn) (hnode ▸ h.links n hn), hnode]
  refine exists_congr fun p => exists_congr fun input => exists_congr fun link => exists_congr fun e => ?_
  rw [hspares.endOf]
  refine and_congr_right fun _ => and_congr_right fun he => ?_
  exact h.heldAt_source_iff hids hnodup hrun he

theorem refused_iff_of_run (hdirect : IsDirect n.2) (hf : f.isRefusal = true) :
    contribute nodesInfo n.1 k.node k.mode k.type k.callee k.named k.targets = .error f ↔
      sheet.Exposed nodesInfo before n k ∧ f = .unexpectedStatement k.statement.text := by
  obtain ⟨hnode, hholes⟩ := h.hole_iff hids hnodup hrun hn hnew hk
  rw [contribute_refused_iff (of_run_sketch hk) (hnode ▸ hdirect) hf, mem_text_sketch_iff, hnode]
  constructor
  · -- an open link would be an underscore
    rintro ⟨hchosen, hmove, hmark, rfl⟩
    rw [not_or, not_or] at hmark
    obtain ⟨hcallee, htargets, harguments⟩ := hmark
    refine ⟨⟨hchosen, fun p input link e hargument he => ?_, hcallee,
      fun x hx hmem => htargets ⟨x, hx, hmem⟩, fun a ha _ hmem => harguments ⟨a, ha, hmem⟩, hmove⟩, rfl⟩
    by_contra hsource
    obtain ⟨type, htype⟩ := hholes.mpr ⟨p, input, link, e, hargument, he, hsource⟩
    exact harguments ⟨_, htype, by simp [Argument.text]⟩
  · rintro ⟨hexposed, rfl⟩
    refine ⟨hexposed.chosen, hexposed.unmoved, ?_, rfl⟩
    rintro (hcallee | ⟨x, hx, hmem⟩ | ⟨a, ha, hmem⟩)
    · exact hexposed.callee hcallee
    · exact hexposed.targets x hx hmem
    · refine hexposed.arguments a ha ?_ hmem
      rintro type rfl
      obtain ⟨p, input, link, e, hargument, he, hsource⟩ := hholes.mp ⟨type, ha⟩
      exact hsource (hexposed.written p input link e hargument he)

end Runs

section Turns

variable {order before : List Value} (hids : ∀ id ∈ order, id.IsId) (hnodup : order.Nodup) {k : Sketch}

include h hids hnodup

theorem exists_node_of_turnOf (hturn : TurnOf nodesInfo sheet.graph order before id k) :
    ∃ n ∈ sheet.nodes, n.1 = id := by
  obtain ⟨after, cs, d, d', rfl, hrun, hk⟩ := hturn
  obtain ⟨-, hspares⟩ := spares_emitAll h.distinct_graph
    (fun id hid => hids id (List.mem_append_left _ hid)) hrun
  have hid : id.IsId := hids id (by simp)
  have hnew : id ∉ before := fun hmem =>
    (List.nodup_cons.mp (List.nodup_middle.mp hnodup)).1 (List.mem_append_left _ hmem)
  obtain ⟨-, x, hx, -⟩ := Graph.nodeOf_eq_ok_iff.mp (of_run_sketch hk).node
  by_contra hnone
  have hout : id ∉ sheet.nodes.map Prod.fst := fun hmem => hnone (List.mem_map.mp hmem)
  rw [hspares.vertex? id hid hnew, Sheet.graph, Graph.vertex?_of_not_mem hid h.ids hout] at hx
  cases hx

theorem refused_iff_of_turnOf {n : Value × Value} (hn : n ∈ sheet.nodes)
    (hturn : TurnOf nodesInfo sheet.graph order before n.1 k) (hdirect : IsDirect n.2)
    (hf : f.isRefusal = true) :
    contribute nodesInfo n.1 k.node k.mode k.type k.callee k.named k.targets = .error f ↔
      sheet.Exposed nodesInfo before n k ∧ f = .unexpectedStatement k.statement.text := by
  obtain ⟨after, cs, d, d', rfl, hrun, hk⟩ := hturn
  refine h.refused_iff_of_run (fun id hid => hids id (List.mem_append_left _ hid))
    (List.nodup_append.mp hnodup).1 hrun hn (fun hmem => ?_) hk hdirect hf
  exact (List.nodup_cons.mp (List.nodup_middle.mp hnodup)).1 (List.mem_append_left _ hmem)

end Turns

end Coherent

end Sheet

/-! ## Scripts -/

namespace Transpiler

theorem isId_items_order {sheet : Sheet} (h : sheet.Coherent) {ends : Value} {ends' : Option Value}
    {log : String} (hends : ∀ items, ends.iterate = .ok items → ∀ v ∈ items, v.IsId)
    (hresolve : resolveEnds ⟨nodesInfo, sheet.graph⟩ ends = .ok (log, ends')) :
    ∀ id ∈ (order nodesInfo sheet.graph ends').2.items, id.IsId := by
  cases hfound : endsOf sheet.graph ends' with
  | error e =>
    rw [order_of_endsOf_error hfound]
    exact fun id hid => absurd hid List.not_mem_nil
  | ok found =>
    rw [order_of_endsOf hfound]
    exact h.isId_order (isId_of_endsOf h.isId_vertex hends hresolve hfound)

/-- When a script ends in a refusal, for a workflow whose nodes are all in use and neither pass on a
value nor hold a literal: it does if and only if the turn comes to a multiplexer that is exposed, and
then the refused statement is that of the multiplexer. -/
theorem refused_iff_exposed {workflow document ends : Value} {standalone : Bool} {sheet : Sheet}
    {t : Transpiler} (hdocument : documentOf workflow nodesInfo = .ok document)
    (hsheet : sheet.IsOf document) (h : sheet.Coherent) (hdirect : ∀ n ∈ sheet.nodes, IsDirect n.2)
    (ht : (openWorkflow workflow nodesInfo).2 = .ok t)
    (hends : ∀ items, ends.iterate = .ok items → ∀ v ∈ items, v.IsId) (hf : f.isRefusal = true) :
    (t.script ends standalone).1.script = .error f ↔
      ∃ log ends' before n k, t.resolveEnds ends = .ok (log, ends') ∧ n ∈ sheet.nodes ∧
        TurnOf nodesInfo sheet.graph (order nodesInfo sheet.graph ends').2.items before n.1 k ∧
        sheet.Exposed nodesInfo before n k ∧ f = .unexpectedStatement k.statement.text := by
  obtain rfl := eq_of_openWorkflow hdocument (h.ofDocument_eq hsheet) ht
  rw [script_refused_iff hf]
  constructor
  · rintro ⟨log, ends', before, id, k, hresolve, hturn, hcontribute⟩
    have hids := isId_items_order h hends hresolve
    obtain ⟨n, hn, rfl⟩ := h.exists_node_of_turnOf hids (nodup_order hids) hturn
    have hexposed := (h.refused_iff_of_turnOf hids (nodup_order hids) hn hturn (hdirect n hn) hf).mp
      hcontribute
    exact ⟨log, ends', before, n, k, hresolve, hn, hturn, hexposed⟩
  · rintro ⟨log, ends', before, n, k, hresolve, hn, hturn, hexposed⟩
    have hids := isId_items_order h hends hresolve
    exact ⟨log, ends', before, n.1, k, hresolve, hturn,
      (h.refused_iff_of_turnOf hids (nodup_order hids) hn hturn (hdirect n hn) hf).mpr hexposed⟩

def sharedTypes : Value :=
  let latent : Value := .list [.str "LATENT"]
  let type (inputs : List (String × Value)) (outputs : Value) : Value :=
    .dict [("input", .dict [("required", .dict inputs)]), ("output", outputs),
      ("output_name", outputs)]
  .dict [("Empty", type [] latent), ("Save", type [("samples", latent)] (.list [])),
    ("LatentBlend",
      type [("samples1", latent), ("samples2", latent), ("blend_factor", .list [.str "FLOAT"])] latent)]

def chosenSource : Value × Value := (.int 1, documentNode 1 "Empty" [] [latentOutput [.int 1]])

def sharedSource : Value × Value :=
  (.int 2, documentNode 2 "Empty" [] [latentOutput [.int 2, .int 3]])

def blendNode : Value × Value :=
  (.int 3, .dict [("id", .int 3), ("type", .str "LatentBlend"), ("pos", .list [.int 3, .int 0]),
    ("mode", .int 0),
    ("inputs", .list [linkedInput "samples1" "LATENT" 1, linkedInput "samples2" "LATENT" 2]),
    ("outputs", .list [latentOutput [.int 4]]), ("widgets_values", .list [.int 1])])

def saveNode (id link : Int) : Value × Value :=
  (.int id, documentNode id "Save" [linkedInput "samples" "LATENT" link] [])

def sharedNodes : List (Value × Value) :=
  [chosenSource, sharedSource, blendNode, saveNode 4 3, saveNode 5 4]

def sharedSheet : Sheet where
  nodes := sharedNodes.map listed
  edges := [latentEdge 1 1 3 0, latentEdge 2 2 3 1, latentEdge 3 2 4 0, latentEdge 4 3 5 0]

def sharedWorkflow : Value :=
  .dict [("nodes", .list (sharedNodes.map Prod.snd)),
    ("links", .list (sharedSheet.edges.map Edge.row)), ("version", version)]

theorem forall_sharedSheet {P : Value × Value → Prop} :
    (∀ n ∈ sharedSheet.nodes, P n) ↔ P (listed chosenSource) ∧ P (listed sharedSource) ∧
      P (listed blendNode) ∧ P (listed (saveNode 4 3)) ∧ P (listed (saveNode 5 4)) := by
  simp [sharedSheet, sharedNodes]

theorem isNode_blendNode : IsNode (listed blendNode).2 := by
  have hnames : ((inputsOf (listed blendNode).2).map nameOf?).Nodup := by decide
  refine ⟨⟨_, rfl⟩, rfl, .inr ⟨_, rfl⟩, fun i hi j hj _ _ hname => List.inj_on_of_nodup_map hnames hi hj hname,
    fun s o ho => ?_, fun o ho => ?_⟩
  · change [(latentOutput [.int 4]).asRecords][s]? = some o at ho
    rcases s with _ | s
    · exact Option.some.inj ho ▸ rfl
    · cases ho
  · rw [List.mem_singleton.mp ho]
    exact .inr ⟨_, rfl⟩

theorem isNode_sharedSheet : ∀ n ∈ sharedSheet.nodes, IsNode n.2 :=
  forall_sharedSheet.mpr ⟨isNode_documentNode _ _ (by decide) (.inr ⟨_, rfl⟩),
    isNode_documentNode _ _ (by decide) (.inr ⟨_, rfl⟩), isNode_blendNode,
    isNode_documentNode _ _ (by decide) (.inl rfl), isNode_documentNode _ _ (by decide) (.inl rfl)⟩

theorem coherent_sharedSheet : sharedSheet.Coherent where
  ids := forall_sharedSheet.mpr ⟨trivial, trivial, trivial, trivial, trivial⟩
  ids_nodup := by
    simp [sharedSheet, sharedNodes, listed, chosenSource, sharedSource, blendNode, saveNode]
  keys := by simp [sharedSheet, latentEdge, Value.IsId]
  keys_nodup := by simp [sharedSheet, latentEdge]
  named := forall_sharedSheet.mpr ⟨rfl, rfl, rfl, rfl, rfl⟩
  sources := by simp [sharedSheet, sharedNodes, latentEdge, listed, chosenSource, sharedSource, blendNode]
  targets := by simp [sharedSheet, sharedNodes, latentEdge, listed, blendNode, saveNode]
  names n hn := (isNode_sharedSheet n hn).names
  links n hn := (isNode_sharedSheet n hn).links
  slots n hn p o ho := .inr ((isNode_sharedSheet n hn).slots p o ho)
  source := by
    simp only [sharedSheet, List.forall_mem_cons, List.not_mem_nil, false_imp_iff, implies_true, and_true]
    exact ⟨⟨_, .head _, rfl, 0, _, rfl, rfl, .head _⟩, ⟨_, .tail _ (.head _), rfl, 0, _, rfl, rfl, .head _⟩,
      ⟨_, .tail _ (.head _), rfl, 0, _, rfl, rfl, .tail _ (.head _)⟩,
      ⟨_, .tail _ (.tail _ (.head _)), rfl, 0, _, rfl, rfl, .head _⟩⟩

theorem isDirect_sharedSheet : ∀ n ∈ sharedSheet.nodes, IsDirect n.2 :=
  forall_sharedSheet.mpr ⟨⟨rfl, "Empty", rfl, by decide, by decide⟩, ⟨rfl, "Empty", rfl, by decide, by decide⟩,
    ⟨rfl, "LatentBlend", rfl, by decide, by decide⟩, ⟨rfl, "Save", rfl, by decide, by decide⟩,
    ⟨rfl, "Save", rfl, by decide, by decide⟩⟩

def refused? : Except Fault String → Option String
  | .error (.unexpectedStatement text) => some text
  | _ => none

theorem eq_of_refused? {result : Except Fault String} {text : String} (h : refused? result = some text) :
    result = .error (.unexpectedStatement text) := by
  unfold refused? at h
  split at h
  · rw [Option.some.inj h]
  · cases h

/-- Both latents have their variables when the turn comes to the multiplexer. -/
theorem refused_iff_exposed_sharedWorkflow :
    sharedSheet.Coherent ∧ (∀ n ∈ sharedSheet.nodes, IsDirect n.2) ∧
    ∃ t, (openWorkflow sharedWorkflow sharedTypes).2 = .ok t ∧
      (t.script .null false).1.script =
        .error (.unexpectedStatement "latent3 = LatentBlend(latent2, latent, 1)\n") ∧
      ∃ before n k, n ∈ sharedSheet.nodes ∧ sharedSheet.Exposed sharedTypes before n k ∧
        k.statement.text = "latent3 = LatentBlend(latent2, latent, 1)\n" := by
  have hrefused : ((openWorkflow sharedWorkflow sharedTypes).2.toOption.bind fun t =>
      refused? (t.script .null false).1.script) =
        some "latent3 = LatentBlend(latent2, latent, 1)\n" := by
    decide +kernel
  obtain ⟨t, ht, hscript⟩ := Option.bind_eq_some_iff.mp hrefused
  have ht := toOption_eq_some_iff.mp ht
  have hscript := eq_of_refused? hscript
  have hnull : ∀ items, Value.null.iterate = .ok items → ∀ v ∈ items, v.IsId := by rintro items ⟨⟩
  obtain ⟨log, ends', before, n, k, -, hn, -, hexposed, htext⟩ := (refused_iff_exposed rfl ⟨rfl, rfl⟩
    coherent_sharedSheet isDirect_sharedSheet ht hnull rfl).mp hscript
  exact ⟨coherent_sharedSheet, isDirect_sharedSheet, t, ht, hscript, before, n, k, hn, hexposed,
    (Fault.unexpectedStatement.inj htext).symm⟩

end Transpiler

end Flowscript.Workflow
