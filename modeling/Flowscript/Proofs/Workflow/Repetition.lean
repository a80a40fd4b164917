import Flowscript.Proofs.Workflow.Closed
import Flowscript.Proofs.Workflow.Naming
import Flowscript.Proofs.Workflow.Steady

/-!
# Scripts of the same graph

A script leaves marks in the graph: inputs and outputs are put in order, and outputs have variables.
A second script starts from them. If the graph was steady in the order of its statements, the visit
meets the same vertices, and every statement finds the marks that it would leave. So the second
script is the same, and leaves the graph as it is.
-/

namespace Flowscript.Workflow

open List Option

variable {name : String} {items : Option (List Value)} {node : Value}

theorem setItems_eq_self (h : node.field? name = items.map .list) : setItems name items node = node := by
  cases items with
  | none => rfl
  | some items =>
    cases node with
    | record fields =>
      have hfind : Table.find? name fields = some (.list items) := Value.lookup_eq_find? name fields ▸ h
      rw [setItems, setField, Value.put_eq_tablePut, Table.put_eq_self hfind]
    | _ => cases h

theorem field?_setItems_self (h : (node.field? name).isSome = items.isSome) :
    (setItems name items node).field? name = items.map .list := by
  cases items with
  | none => simpa [setItems] using h
  | some items =>
    cases node with
    | record fields => rw [setItems, setField, Value.field?, Value.lookup_put, if_pos rfl, map_some]
    | _ => cases h

theorem recordAll_recordAll {recorded : List (Value × String)}
    (h : ∀ entry ∈ recorded, ∃ n, entry.1 = .int n) :
    recordAll recorded (recordAll recorded none) = recordAll recorded none := by
  let lift : Int × String → Value × String := fun entry => (.int entry.1, entry.2)
  have hput (n : Int) (x : String) (table : List (Int × String)) :
      Table.put (.int n) x (table.map lift) = (Table.put n x table).map lift := by
    induction table with
    | nil => rfl
    | cons entry rest ih =>
      obtain ⟨k, y⟩ := entry
      by_cases hk : k = n
      · simp [lift, Table.put, Value.int_beq_int, hk]
      · have ih : Table.put (.int n) x (rest.map lift) = (Table.put n x rest).map lift := ih
        simp only [lift] at ih
        simp [lift, Table.put, Value.int_beq_int, hk, ih]
  -- on whole numbers the variables are a table whose keys are told apart
  have hall (entries : List (Int × String)) (table : List (Int × String)) :
      recordAll (entries.map lift) (some (table.map lift)) =
        some ((Table.putAll entries table).map lift) := by
    induction entries generalizing table with
    | nil => rfl
    | cons entry rest ih => exact (congrArg (recordAll (rest.map lift) ∘ some) (hput _ _ _)).trans (ih _)
  obtain ⟨entries, rfl⟩ : ∃ entries : List (Int × String), recorded = entries.map lift := by
    clear hall hput
    induction recorded with
    | nil => exact ⟨[], rfl⟩
    | cons entry rest ih =>
      obtain ⟨k, x⟩ := entry
      obtain ⟨n, rfl⟩ : ∃ n, k = .int n := h (k, x) mem_cons_self
      obtain ⟨entries, rfl⟩ := ih fun entry hentry => h entry (mem_cons_of_mem _ hentry)
      exact ⟨(n, x) :: entries, rfl⟩
  cases entries with
  | nil => rfl
  | cons entry rest =>
    have hstart : recordAll ((entry :: rest).map lift) none =
        some ((Table.putAll (entry :: rest) []).map lift) := hall (entry :: rest) []
    rw [hstart, hall, Table.putAll_putAll]

/-- The mark has inputs and outputs where the node has some. -/
structure Mark.Fits (m : Mark) (v : Value) : Prop where
  inputs : (v.field? "inputs").isSome = m.inputs.isSome
  outputs : (v.field? "outputs").isSome = m.outputs.isSome

namespace Mark.Fits

variable {m : Mark} {v : Value}

theorem field?_inputs (h : m.Fits v) : (m.node v).field? "inputs" = m.inputs.map .list := by
  rw [Mark.node, field?_setItems (by decide), field?_setItems_self h.inputs]

theorem field?_outputs (h : m.Fits v) : (m.node v).field? "outputs" = m.outputs.map .list := by
  rw [Mark.node, field?_setItems_self]
  rw [field?_setItems (by decide), h.outputs]

theorem alike (h : m.Fits v) : Alike v (m.node v) where
  fields name hname := by
    simp only [mem_cons, not_mem_nil, or_false, not_or] at hname
    exact m.field?_node (Ne.symm hname.1) (Ne.symm hname.2) v
  inputs := by rw [h.field?_inputs, isSome_map, h.inputs]

theorem node_node (h : m.Fits v) : m.node (m.node v) = m.node v := by
  have hnode : m.node (m.node v) = setItems "outputs" m.outputs (setItems "inputs" m.inputs (m.node v)) := rfl
  rw [hnode, setItems_eq_self h.field?_inputs, setItems_eq_self h.field?_outputs]

theorem apply_apply (h : m.Fits v) {x : Vertex} (hx : x.node = some v) (hfresh : x.outputIds = none)
    (hslots : ∀ entry ∈ m.recorded, ∃ n, entry.1 = .int n) : m.apply (m.apply x) = m.apply x := by
  unfold Mark.apply
  simp only [hx, hfresh, map_some, h.node_node, recordAll_recordAll hslots]

end Mark.Fits

theorem Arranges.isSome {key : Value → Except Fault Value} (h : Arranges key name node items) :
    (node.field? name).isSome = items.isSome := by
  cases items with
  | none => exact congrArg Option.isSome (show node.field? name = none from h)
  | some sorted =>
    obtain ⟨items, hfield, -⟩ := h
    rw [hfield]
    rfl

theorem Arranges.of_sorted {key : Value → Except Fault Value} (hfield : node.field? name = items.map .list)
    (hsorted : ∀ sorted, items = some sorted → sortOn key sorted = .ok sorted) :
    Arranges key name node items := by
  cases items with
  | none => exact hfield
  | some sorted => exact ⟨sorted, hfield, hsorted sorted rfl⟩

theorem linkedArguments_congr {g h : Graph} {inputs : List Value}
    (hend : ∀ link, h.endOf link = g.endOf link)
    (hvertex : ∀ input ∈ inputs, ∀ link e, linkNumber? input = some link → g.endOf link = .ok e →
      h.vertex? e.source = g.vertex? e.source) (arguments : List (String × Argument)) :
    linkedArguments h inputs arguments = linkedArguments g inputs arguments := by
  unfold linkedArguments
  induction inputs generalizing arguments with
  | nil => rfl
  | cons input rest ih =>
    have hput : putLinked h arguments input = putLinked g arguments input := by
      unfold putLinked
      cases hfield : input.field "link" with
      | error e => rfl
      | ok link =>
        rw [ok_bind, ok_bind]
        split
        · rfl
        next hnull =>
          have hlink := linkNumber?_eq_some_iff.mpr ⟨field_eq_ok_iff.mp hfield, hnull⟩
          have hargument : linkedArgument h input link = linkedArgument g input link := by
            unfold linkedArgument
            rw [hend]
            cases hedge : g.endOf link with
            | error e => rfl
            | ok e => rw [ok_bind, ok_bind, hvertex input mem_cons_self link e hlink hedge]
          rw [hargument]
    rw [foldlM_cons, foldlM_cons, hput]
    cases putLinked g arguments input with
    | error e => rfl
    | ok arguments' => exact ih (fun input hinput => hvertex input (mem_cons_of_mem _ hinput)) arguments'

theorem assignOutputs_of_alike {v w : Value} (h : Alike v w) {outputs : Option (List Value)}
    (hv : Arranges (fun o => .ok (placeOfOutput o)) "outputs" v outputs)
    (hw : w.field? "outputs" = outputs.map .list)
    (hsorted : ∀ items, outputs = some items → sortOn (fun o => .ok (placeOfOutput o)) items = .ok items)
    (id : Value) (arguments : List Argument) : assignOutputs id w arguments = assignOutputs id v arguments := by
  unfold assignOutputs
  simp only [h.assignOutput]
  cases outputs with
  | none =>
    have hv : v.field? "outputs" = none := hv
    rw [hv, hw]
    rfl
  | some sorted =>
    obtain ⟨items, hv, hsort⟩ := hv
    rw [hv, hw]
    simp only [map_some, itemsOf, ok_bind, hsort, hsorted sorted rfl]

namespace Emission.Gives

variable {e : Emission} {nodesInfo id : Value} {g : Graph} {names names' : List String} {c : Contribution}
  {rest : List Value} {g' : Graph} (h : e.Gives nodesInfo id g names c names')

include h

theorem inputsAt_eq : g.inputsAt id = inputsOf e.node := by
  rw [Graph.inputsAt, h.node]
  rfl

theorem outputsAt_eq : g.outputsAt id = outputsOf e.node := by
  rw [Graph.outputsAt, h.node]
  rfl

theorem fits : e.mark.Fits e.node :=
  ⟨h.inputs.isSome, h.outputs.isSome⟩

variable (hsteady : g.Steady (id :: rest))
include hsteady

theorem inputs_sorted {sorted : List Value} (hmark : e.mark.inputs = some sorted) :
    ∃ items, e.node.field? "inputs" = some (.list items) ∧ sorted.Perm items ∧
      linkedInputs sorted = linkedInputs items ∧ sortOn (placeOfInput g) sorted = .ok sorted := by
  have harranged := h.inputs
  rw [hmark] at harranged
  obtain ⟨items, hfield, hsorted⟩ := harranged
  have hat : g.inputsAt id = items := by rw [h.inputsAt_eq, inputsOf, itemsAt, hfield]
  have hplaces := hsteady.places id mem_cons_self
  have hlinked := hsteady.inputs id mem_cons_self
  rw [hat] at hplaces hlinked
  have hplace (input : Value) (hinput : input ∈ items) :
      placeOfInput g input = .ok (.int ((g.inputPlace? input).getD 0)) := by
    have hsome := hplaces input hinput
    unfold Graph.inputPlace? at hsome ⊢
    split
    next hint => rw [hint, getD_some]
    next hnot =>
      split at hsome
      next hint => exact absurd hint (hnot _)
      · cases hsome
  have hplaceAt (p : Nat) (input : Value) (hp : items[p]? = some input) :
      placeOfInput g input = .ok (.int ((items[p]?.bind g.inputPlace?).getD 0)) := by
    rw [hp]
    exact hplace input (mem_of_getElem? hp)
  refine ⟨items, hfield, perm_of_sortOn hsorted, ?_, sortOn_sortOn _ hplaceAt hsorted⟩
  refine filter_sortOn hplaceAt _ (fun i j a b hlt ha hb hpa hpb => ?_) hsorted
  obtain ⟨m, hm⟩ := isSome_iff_exists.mp (hplaces a (mem_of_getElem? ha))
  obtain ⟨n, hn⟩ := isSome_iff_exists.mp (hplaces b (mem_of_getElem? hb))
  rw [linkedInputs, pairwise_filter, pairwise_iff_getElem] at hlinked
  obtain ⟨hi, rfl⟩ := List.getElem?_eq_some_iff.mp ha
  obtain ⟨hj, rfl⟩ := List.getElem?_eq_some_iff.mp hb
  rw [ha, hb, bind_some, bind_some, hm, hn]
  exact hlinked i j hi hj hlt hpa hpb m hm n hn

theorem outputs_sorted {outputs : List Value} (houtputs : e.mark.outputs = some outputs) :
    sortOn (fun o => .ok (placeOfOutput o)) outputs = .ok outputs ∧
      ∀ o ∈ outputs, Graph.hasWholeSlot o = true := by
  have harranged := h.outputs
  rw [houtputs] at harranged
  obtain ⟨items, hfield, hsorted⟩ := harranged
  have hslots := hsteady.outputs id mem_cons_self
  rw [h.outputsAt_eq, outputsOf, itemsAt, hfield] at hslots
  have hplaces (o : Value) (ho : o ∈ items) := Graph.placeOfOutput_of_hasWholeSlot (hslots o ho)
  choose! k hk using hplaces
  refine ⟨sortOn_sortOn (fun p => k (items[p]?.getD .null)) (fun p o hp => ?_) hsorted,
    fun o ho => ?_⟩
  · rw [hp]
    exact congrArg Except.ok (hk o (mem_of_getElem? hp))
  · exact hslots o ((perm_of_sortOn hsorted).subset ho)

theorem slots_whole : ∀ entry ∈ e.mark.recorded, ∃ n, entry.1 = .int n := by
  intro entry hentry
  obtain ⟨outputs, houtputs, o, ho, i, hslot⟩ := h.slots entry hentry
  rw [hslot]
  exact Graph.slotOf_of_hasWholeSlot ((h.outputs_sorted hsteady houtputs).2 o ho) _ i

theorem sources_of_mark (hread : (sources nodesInfo g id).fault = none) (hlinks : g'.links = g.links)
    {other : Value} (hv : g.nodeOf other = .ok e.node) (hw : g'.nodeOf other = .ok (e.mark.node e.node)) :
    sources nodesInfo g' other = sources nodesInfo g other := by
  have hfield := h.fits.field?_inputs
  cases hmark : e.mark.inputs with
  | none =>
    have hnone : e.node.field? "inputs" = none := by
      have hinputs := h.inputs
      rw [hmark] at hinputs
      exact hinputs
    rw [hmark] at hfield
    unfold sources
    simp only [hv, hw, ok_bind, hnone, hfield, map_none]
    rfl
  | some sorted =>
    obtain ⟨items, hitems, hperm, hlinked, -⟩ := h.inputs_sorted hsteady hmark
    rw [hmark, map_some] at hfield
    have hsame : sources nodesInfo g other = sources nodesInfo g id := by
      unfold sources
      rw [hv, h.node]
    exact sources_eq_of_linkedInputs hlinks hv hw h.fits.alike hitems hfield hperm hlinked (hsame ▸ hread)

variable (hg : g.Distinct)
include hg

theorem graph_alike : g.Alike (g.modifyVertex id e.mark.apply) := by
  refine ⟨List.forall₂_map_right_iff.mpr (List.forall₂_same.mpr fun x hx => ?_), rfl, rfl⟩
  have hid := hsteady.visited id mem_cons_self
  by_cases heq : (x.id == id) = true
  · obtain ⟨-, y, hy, hnode⟩ := Graph.nodeOf_eq_ok_iff.mp h.node
    have hxid := ((hg.ids x hx).beq_iff hid).mp heq
    obtain rfl := some.inj (hy.symm.trans ((hg.vertex?_eq_some_iff hid).mpr ⟨hx, hxid⟩))
    rw [if_pos heq]
    refine ⟨rfl, ?_⟩
    rw [Mark.apply, hnode]
    exact .some h.fits.alike
  · rw [if_neg heq]
    exact .refl x

theorem sources_eq (hread : (sources nodesInfo g id).fault = none) :
    sources nodesInfo (g.modifyVertex id e.mark.apply) = sources nodesInfo g := by
  have hid := hsteady.visited id mem_cons_self
  obtain ⟨-, x, hx, hnode⟩ := Graph.nodeOf_eq_ok_iff.mp h.node
  funext other
  by_cases hother : g.vertex? other = some x
  · cases hhash : other.hashable with
    | false =>
      unfold sources Graph.nodeOf
      rw [hhash]
      rfl
    | true =>
      have hxid := ((hg.vertex?_eq_some_iff hid).mp hx).2
      have hself : (x.id == id) = true := ((hxid ▸ hid : x.id.IsId).beq_iff hid).mpr hxid
      have hmarked : (g.modifyVertex id e.mark.apply).vertex? other = some (e.mark.apply x) := by
        rw [Graph.vertex?_modifyVertex g id other e.mark.id_apply, hother, map_some, if_pos hself]
      have hw : (g.modifyVertex id e.mark.apply).nodeOf other = .ok (e.mark.node e.node) :=
        Graph.nodeOf_eq_ok_iff.mpr ⟨hhash, _, hmarked, by simp [Mark.apply, hnode]⟩
      refine h.sources_of_mark hsteady hread ?_ (Graph.nodeOf_eq_ok_iff.mpr ⟨hhash, x, hother, hnode⟩) hw
      rfl
  · have hsame : (g.modifyVertex id e.mark.apply).vertex? other = g.vertex? other := by
      refine hg.vertex?_apply_of_ne hid e.mark fun y hy hyid => hother ?_
      rw [hy, ← hx, (hg.vertex?_eq_some_iff hid).mpr ⟨mem_of_find?_eq_some hy, hyid⟩]
    unfold sources Graph.nodeOf
    rw [hsame]
    rfl

theorem not_mem_of_reads {input link : Value} {edge : Edge} (hinput : input ∈ inputsOf e.node)
    (hlink : linkNumber? input = some link) (hedge : g.endOf link = .ok edge) {x : Vertex}
    (hx : g.vertex? edge.source = some x) : x.id ∉ id :: rest := by
  have hreads : x.id ∈ g.readsAt id := by
    refine mem_filterMap.mpr ⟨input, h.inputsAt_eq ▸ hinput, ?_⟩
    rw [Graph.sourceVertex?_eq_some_iff.mpr ⟨link, edge, hlink, hedge, hx⟩, map_some]
  have hxid := hg.ids x (mem_of_find?_eq_some hx)
  have hne {other : Value} (hother : other ∈ id :: rest) (hne : (x.id == other) = false) : x.id ≠ other := by
    intro heq
    rw [(hxid.beq_iff (hsteady.visited other hother)).mpr heq] at hne
    cases hne
  rw [mem_cons, not_or]
  refine ⟨hne mem_cons_self (hsteady.reads id mem_cons_self x.id hreads), fun hrest => ?_⟩
  have hlater := (pairwise_cons.mp hsteady.later).1 x.id hrest x.id hreads
  exact hne (mem_cons_of_mem _ hrest) hlater rfl

theorem linked_again (hg' : g'.Distinct) (hend : ∀ link, g'.endOf link = g.endOf link)
    (hothers : ∀ other, (∀ x, g.vertex? other = some x → x.id ∉ id :: rest) →
      g'.vertex? other = g.vertex? other) :
    linkedArguments (g'.modifyVertex id (Mark.ofInputs e.mark.inputs).apply) (e.mark.inputs.getD [])
      e.widgets = .ok e.named := by
  have hid := hsteady.visited id mem_cons_self
  rw [← h.linked]
  refine linkedArguments_congr (g := g.modifyVertex id (Mark.ofInputs e.mark.inputs).apply)
    (h := g'.modifyVertex id (Mark.ofInputs e.mark.inputs).apply) hend
    (fun input hinput link edge hlink hedge => ?_) e.widgets
  have hmem : input ∈ inputsOf e.node := by
    cases hmark : e.mark.inputs with
    | none => simp [hmark] at hinput
    | some sorted =>
      obtain ⟨items, hitems, hperm, -⟩ := h.inputs_sorted hsteady hmark
      rw [hmark, getD_some] at hinput
      rw [inputsOf, itemsAt, hitems]
      exact hperm.subset hinput
  -- what the link leads to has no mark, in either graph
  have hsource (y : Vertex) (hy : g.vertex? edge.source = some y) : y.id ∉ id :: rest :=
    h.not_mem_of_reads hsteady hg hmem hlink hedge hy
  have hsame := hothers edge.source hsource
  have hne (y : Vertex) (hy : g.vertex? edge.source = some y) : y.id ≠ id :=
    fun heq => hsource y hy (heq ▸ mem_cons_self)
  rw [hg.vertex?_apply_of_ne hid _ hne, hg'.vertex?_apply_of_ne hid _ (hsame ▸ hne), hsame]

theorem again (hfresh : ∀ x, g.vertex? id = some x → x.outputIds = none)
    (hg' : g'.Distinct) (hend : ∀ link, g'.endOf link = g.endOf link)
    (hvertex : g'.vertex? id = (g.vertex? id).map e.mark.apply)
    (hothers : ∀ other, (∀ x, g.vertex? other = some x → x.id ∉ id :: rest) →
      g'.vertex? other = g.vertex? other) :
    (emit nodesInfo id).run ⟨g', names⟩ = (.ok c, ⟨g', names'⟩) := by
  have hid := hsteady.visited id mem_cons_self
  have hfits := h.fits
  have halike := hfits.alike
  obtain ⟨hhashable, x, hx, hnode⟩ := Graph.nodeOf_eq_ok_iff.mp h.node
  rw [hx, map_some] at hvertex
  have hplace : placeOfInput g' = placeOfInput g := by
    funext input
    unfold placeOfInput
    simp only [hend]
  have hinputs : Arranges (placeOfInput g') "inputs" (e.mark.node e.node) e.mark.inputs := by
    refine .of_sorted hfits.field?_inputs fun sorted hmark => ?_
    obtain ⟨-, -, -, -, hsorted⟩ := h.inputs_sorted hsteady hmark
    exact hplace ▸ hsorted
  have houtputs : Arranges (fun o => .ok (placeOfOutput o)) "outputs" (e.mark.node e.node)
      e.mark.outputs :=
    .of_sorted hfits.field?_outputs fun _ hmark => (h.outputs_sorted hsteady hmark).1
  have hgives : Emission.Gives { e with node := e.mark.node e.node } nodesInfo id g' names c names' :=
    { node := Graph.nodeOf_eq_ok_iff.mpr ⟨hhashable, _, hvertex, by simp [Mark.apply, hnode]⟩
      mode := (halike.field (by decide)).trans h.mode
      type := (halike.field (by decide)).trans h.type
      name := h.name
      widgets := (halike.widgetArguments _ _).trans h.widgets
      inputs := hinputs
      linked := h.linked_again hsteady hg hg' hend hothers
      arguments := h.arguments
      outputs := houtputs
      targets := fun k => by
        have hsame := assignOutputs_of_alike halike h.outputs hfits.field?_outputs
          (fun _ houtputs => (h.outputs_sorted hsteady houtputs).1) id e.arguments
        dsimp only
        rw [hsame]
        exact h.targets k
      fresh := h.fresh
      slots := h.slots
      contribute := (halike.contribute _ _ _ _ _ _ _).trans h.contribute }
  have hkeeps : g'.modifyVertex id e.mark.apply = g' := by
    refine Graph.modifyVertex_eq_self fun y hy heq => ?_
    have hyid := ((hg'.ids y hy).beq_iff hid).mp heq
    obtain rfl := some.inj (hvertex.symm.trans ((hg'.vertex?_eq_some_iff hid).mpr ⟨hy, hyid⟩))
    exact hfits.apply_apply hnode (hfresh x hx) (h.slots_whole hsteady)
  have hrun := hgives.run
  rw [hkeeps] at hrun
  exact hrun

end Emission.Gives

/-- What the statements of some vertices make of a graph. -/
structure Graph.Marked (nodesInfo : Value) (g : Graph) (ids : List Value) (g' : Graph) : Prop where
  alike : g.Alike g'
  sources : sources nodesInfo g' = sources nodesInfo g
  distinct : g'.Distinct
  others : ∀ other, (∀ x, g.vertex? other = some x → x.id ∉ ids) → g'.vertex? other = g.vertex? other

theorem run_emitAll_again {nodesInfo : Value} {ids : List Value} {g g' : Graph} {names names' : List String}
    {cs : List Contribution} (hg : g.Distinct) (hids : ids.Nodup)
    (hfresh : ∀ x ∈ g.vertices, x.id ∈ ids → x.outputIds = none) (hsteady : g.Steady ids)
    (hread : ∀ id ∈ ids, (sources nodesInfo g id).fault = none)
    (h : (Transpiler.emitAll nodesInfo ids).run ⟨g, names⟩ = (.ok cs, ⟨g', names'⟩)) :
    (Transpiler.emitAll nodesInfo ids).run ⟨g', names⟩ = (.ok cs, ⟨g', names'⟩) ∧
      g.Marked nodesInfo ids g' := by
  induction ids generalizing g names cs with
  | nil =>
    obtain ⟨rfl, hdraft⟩ := of_run_pure h
    cases hdraft
    exact ⟨h, .refl _, rfl, hg, fun _ _ => rfl⟩
  | cons id rest ih =>
    unfold Transpiler.emitAll at h ⊢
    obtain ⟨c, ⟨g₁, names₁⟩, hemit, h⟩ := of_run_bind h
    obtain ⟨cs', d₂, hrest, h⟩ := of_run_bind h
    obtain ⟨rfl, rfl⟩ := of_run_pure h
    obtain ⟨e, he⟩ := exists_gives hemit
    obtain rfl : g₁ = g.modifyVertex id e.mark.apply := he.graph_eq hemit
    obtain ⟨hnew, hrestIds⟩ := nodup_cons.mp hids
    have hid := hsteady.visited id mem_cons_self
    have hg₁ := hg.apply id e.mark
    have hfresh₁ : ∀ x ∈ (g.modifyVertex id e.mark.apply).vertices,
        x.id ∈ rest → x.outputIds = none := by
      intro x hx hmem
      obtain ⟨y, hy, rfl⟩ := mem_map.mp hx
      by_cases heq : (y.id == id) = true
      · rw [if_pos heq] at hmem
        exact absurd (((hg.ids y hy).beq_iff hid).mp heq ▸ hmem) hnew
      · rw [if_neg heq] at hmem ⊢
        exact hfresh y hy (mem_cons_of_mem _ hmem)
    have hsources := he.sources_eq hsteady hg (hread id mem_cons_self)
    obtain ⟨hagain, hmarked⟩ := ih hg₁ hrestIds hfresh₁ (hsteady.apply hg hnew e.mark)
      (fun other hother => hsources ▸ hread other (mem_cons_of_mem _ hother)) hrest
    have hothers (other : Value) (hother : ∀ x, g.vertex? other = some x → x.id ∉ id :: rest) :
        g'.vertex? other = g.vertex? other := by
      have hsame : (g.modifyVertex id e.mark.apply).vertex? other = g.vertex? other :=
        hg.vertex?_apply_of_ne hid e.mark fun x hx heq => hother x hx (heq ▸ mem_cons_self)
      rw [hmarked.others other fun x hx hmem => hother x (hsame ▸ hx) (mem_cons_of_mem _ hmem), hsame]
    -- the statements that follow leave the mark of this one
    have hvertex : g'.vertex? id = (g.vertex? id).map e.mark.apply := by
      rw [hmarked.others id fun x hx hmem => ?_, Graph.vertex?_modifyVertex g id id e.mark.id_apply]
      · cases hx : g.vertex? id with
        | none => rfl
        | some x =>
          have hxid := ((hg.vertex?_eq_some_iff hid).mp hx).2
          rw [map_some, map_some, if_pos ((hxid ▸ hid : x.id.IsId).beq_iff hid |>.mpr hxid)]
      · exact hnew (((hg₁.vertex?_eq_some_iff hid).mp hx).2 ▸ hmem)
    have halike := (he.graph_alike hsteady hg).trans hmarked.alike
    have hfirst := he.again hsteady hg
      (fun x hx => by
        obtain ⟨hmem, hxid⟩ := (hg.vertex?_eq_some_iff hid).mp hx
        exact hfresh x hmem (hxid ▸ mem_cons_self))
      hmarked.distinct halike.endOf hvertex hothers
    refine ⟨?_, halike, hmarked.sources.trans hsources, hmarked.distinct, hothers⟩
    rw [run_bind_ok hfirst, run_bind_ok hagain]
    rfl

namespace Transpiler

/-- If a workflow is steady in the order of its statements and a script is returned, then the next
script for the same end nodes is the same, with what was said on the way, and leaves the graph as
it is. -/
theorem script_repeats {workflow nodesInfo ends : Value} {standalone : Bool} {t : Transpiler}
    {log text : String} {ends' : Option Value} (ht : (openWorkflow workflow nodesInfo).2 = .ok t)
    (hends : t.resolveEnds ends = .ok (log, ends'))
    (hsteady : t.graph.Steady (order t.nodesInfo t.graph ends').2.items)
    (h : (t.script ends standalone).1.script = .ok text) :
    (t.script ends standalone).2.script ends standalone = t.script ends standalone := by
  obtain ⟨g, names, cs, hrun⟩ : ∃ g names cs,
      (emitAll t.nodesInfo (order t.nodesInfo t.graph ends').2.items).run ⟨t.graph, []⟩ =
        (.ok cs, ⟨g, names⟩) := by
    rw [script_eq] at h
    obtain ⟨cs, hcs, -⟩ := ok_of_map h
    rw [contributionsFor, hends, ok_bind] at hcs
    exact ⟨_, _, cs, Prod.ext (ok_of_orFault hcs) rfl⟩
  have hdistinct : t.graph.Distinct := by
    unfold openWorkflow at ht
    split at ht
    · cases ht
    · obtain ⟨g, hg, rfl⟩ := ok_of_map ht
      exact (Graph.apart_ofDocument hg).distinct hsteady.named
  obtain ⟨hagain, hmarked⟩ := run_emitAll_again hdistinct (nodup_order hsteady.visited)
    (fun x hx _ => isFresh_openWorkflow ht x hx) hsteady (readable_order t.nodesInfo t.graph ends') hrun
  have hscript : (t.script ends standalone).2 = { t with graph := g } := by
    unfold script
    rw [hends]
    simp only [contributions, hrun]
  have horder := hmarked.alike.order hmarked.sources ends'
  rw [hscript]
  unfold script
  rw [resolveEnds_of_alike hmarked.alike, hends]
  simp only [contributions, horder, hrun, hagain]

def splitTypes : Value :=
  let type (inputs : List (String × Value)) (outputs : List Value) : Value :=
    .dict [("input", .dict [("required", .dict inputs)]), ("output", .list outputs),
      ("output_name", .list outputs)]
  .dict [("Split", type [] [.str "LATENT", .str "MASK"]),
    ("Join", type [("model", .list [.str "MODEL"]), ("latent", .list [.str "LATENT"]),
      ("mask", .list [.str "MASK"])] [])]

def splitWorkflow : Value :=
  let node (id : Int) (type : String) (inputs outputs : List Value) : Value :=
    .dict [("id", .int id), ("type", .str type), ("pos", .list [.int id, .int 0]), ("mode", .int 0),
      ("inputs", .list inputs), ("outputs", .list outputs)]
  let input (name type : String) (link : Value) : Value :=
    .dict [("name", .str name), ("type", .str type), ("link", link)]
  let output (type : String) (slot link : Int) : Value :=
    .dict [("name", .str type), ("type", .str type), ("slot_index", .int slot), ("links", .list [.int link])]
  let link (id slot target : Int) (type : String) : Value :=
    .list [.int id, .int 1, .int slot, .int 2, .int target, .str type]
  .dict [
    ("nodes", .list [node 1 "Split" [] [output "MASK" 1 2, output "LATENT" 0 1],
      node 2 "Join" [input "model" "MODEL" .null, input "latent" "LATENT" (.int 1),
        input "mask" "MASK" (.int 2)] []]),
    ("links", .list [link 1 0 1 "LATENT", link 2 1 2 "MASK"]),
    ("version", version)]

def splitView (t : Transpiler) : Option String × List (Option String) × List (Option String) :=
  let (first, t') := t.script .null false
  (first.script.toOption, (t'.graph.inputsAt (.int 2)).map nameOf?, (t'.graph.outputsAt (.int 1)).map nameOf?)

/-- The first script moves the input without a link and turns the outputs round. The second is the
same. -/
theorem script_repeats_splitWorkflow :
    ∃ t, (openWorkflow splitWorkflow splitTypes).2 = .ok t ∧
      t.graph.Steady (order t.nodesInfo t.graph none).2.items ∧
      t.splitView = (some "latent, mask = Split()\nJoin(None, latent, mask)\n",
        [some "latent", some "mask", some "model"], [some "LATENT", some "MASK"]) ∧
      (t.script .null false).2.script .null false = t.script .null false := by
  have hview : ((openWorkflow splitWorkflow splitTypes).2.toOption.map fun t =>
      (decide (t.graph.Steady (order t.nodesInfo t.graph none).2.items), t.splitView)) =
      some (true, some "latent, mask = Split()\nJoin(None, latent, mask)\n",
        [some "latent", some "mask", some "model"], [some "LATENT", some "MASK"]) := by
    decide +kernel
  obtain ⟨t, ht, hview⟩ := Option.map_eq_some_iff.mp hview
  rw [toOption_eq_some_iff] at ht
  obtain ⟨hsteady, hview⟩ := Prod.mk.inj hview
  have hsteady := of_decide_eq_true hsteady
  have hscript := toOption_eq_some_iff.mp (congrArg Prod.fst hview)
  exact ⟨t, ht, hsteady, hview, script_repeats ht rfl hsteady hscript⟩

def twoSources : Value :=
  let call (type : String) (inputs : List (String × Value)) : Value :=
    .dict [("class_type", .str type), ("inputs", .dict inputs)]
  .dict [("1", call "Empty" []), ("2", call "Empty" []),
    ("3", call "Join" [("a", .list [.str "1", .int 0]), ("b", .list [.str "2", .int 0])])]

/-- The first link of a prompt has the number 0, and its input goes behind the others as if it had
none. So the second script takes the sources in the other order. -/
theorem script_changes_twoSources :
    ((openWorkflow twoSources latentTypes).2.toOption.map fun t =>
      let (first, t') := t.script .null false
      (first.script.toOption, (t'.script .null false).1.script.toOption)) =
    some (some "latent = Empty()\nlatent2 = Empty()\nJoin(latent, latent2)\n",
      some "latent = Empty()\nlatent2 = Empty()\nJoin(latent2, latent)\n") := by
  decide +kernel

end Transpiler

end Flowscript.Workflow
