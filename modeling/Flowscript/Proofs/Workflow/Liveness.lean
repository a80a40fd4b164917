import Flowscript.Proofs.Workflow.Likeness
import Flowscript.Proofs.Workflow.Rerouting

/-!
# Variables that are still needed

On a sheet without nodes that only pass on a value, a variable is taken over at the end of the only link
that needs it. So the variable of an output is not written again as long as a node that reads it has
no statement, and every argument was last written for the output where its link starts.
-/

namespace Flowscript.Workflow

open List Option

/-- The last statement with `x` among its targets is that of the node `id`, where `x` stands at the
position `slot`. -/
def LastWritten (cs : List Contribution) (x : String) (id : Value) (slot : Nat) : Prop :=
  ∃ earlier c later, cs = earlier ++ c :: later ∧ c.node = id ∧
    c.targets.names[slot]? = some x ∧ ∀ c' ∈ later, x ∉ c'.targets.names

/-- A contribution that is a call in full, with different variables for its outputs. -/
structure Contribution.IsCall (c : Contribution) : Prop where
  call : ∃ callee, c.statement = some (c.targets.call callee) ∧
    c.line = (c.targets.call callee).text
  used : ∀ x ∈ c.targets.names, x ≠ "_" → c.targets.used = true
  distinct : ∀ (s s' : Nat) x, c.targets.names[s]? = some x → c.targets.names[s']? = some x →
    x ≠ "_" → s = s'

theorem ArgumentAt.unique {nodesInfo node input input' link link' : Value} {p : Nat} (hnode : InOrder node)
    (h : ArgumentAt nodesInfo node p input link) (h' : ArgumentAt nodesInfo node p input' link') :
    input = input' ∧ link = link' := by
  obtain ⟨hmem, hlink, names, name, hnames, hp, hname⟩ := h
  obtain ⟨hmem', hlink', names', name', hnames', hp', hname'⟩ := h'
  obtain rfl : names = names' := Except.ok.inj (hnames.symm.trans hnames')
  obtain rfl : name = name' := some.inj (some.inj (hp.symm.trans hp'))
  obtain rfl := hnode.names input hmem input' hmem' (by simp [hlink]) (by simp [hlink'])
    (hname.trans hname'.symm)
  exact ⟨rfl, some.inj (hlink.symm.trans hlink')⟩

/-- A node with all that its statement is written from: every input has a name, a type and a link, and
every output can be named. -/
structure IsWritable (nodesInfo node : Value) : Prop where
  choice : choiceOfNode nodesInfo node = .ok none
  widgets : ∃ widgets, widgetArguments nodesInfo node (typeOf node) = .ok widgets
  declared : ∃ names, declaredNames nodesInfo (typeOf node) = .ok names
  inputs : ∀ i ∈ inputsOf node, ∃ name type link, i.field? "name" = some (.str name) ∧
    i.field? "type" = some type ∧ linkNumber? i = some link
  outputs : node.field? "outputs" = some (.list (outputsOf node))
  names : ∀ o ∈ outputsOf node, ∃ name, suggestedName node o = .ok name

namespace Sheet

/-- A sheet whose links lead from one ordinary node to another, each to an input of its own. -/
structure Direct (sheet : Sheet) (nodesInfo : Value) : Prop extends sheet.Sound nodesInfo where
  plain : ∀ n ∈ sheet.nodes, ¬ Reroutes n.2
  apart : ∀ n ∈ sheet.nodes, ∀ i ∈ inputsOf n.2, ∀ j ∈ inputsOf n.2, ∀ link,
    linkNumber? i = some link → linkNumber? j = some link → i = j
  places : ∀ e ∈ sheet.edges, ∃ place : Int, e.targetSlot = .int place
  writable : ∀ n ∈ sheet.nodes, IsWritable nodesInfo n.2

variable {sheet : Sheet} {nodesInfo : Value} (h : sheet.Direct nodesInfo)

include h

section Links

variable {m n u w : Value × Value} {i j link link' : Value} {p q r s t : Nat}

theorem Direct.from_of_root (hroot : sheet.Root link u s) : sheet.From link u s := by
  obtain ⟨n, r, hfrom, hroot⟩ := hroot
  cases hroot with
  | ordinary => exact hfrom
  | reroute hreroute => exact absurd hreroute (h.plain n hfrom.mem)

theorem Direct.mem_links (hn : n ∈ sheet.nodes) (hp : ArgumentAt nodesInfo n.2 p i link)
    (hfrom : sheet.From link u s) : ∃ o, (outputsOf u.2)[s]? = some o ∧ link ∈ linksOf o := by
  obtain ⟨m, r, o, hfrom', ho, hmem, -⟩ := h.exists_from hn hp.mem hp.link
  obtain ⟨rfl, rfl⟩ := From.unique h.toSound hfrom hfrom'
  exact ⟨o, ho, hmem⟩

theorem Direct.eq_of_sole (hn : n ∈ sheet.nodes) (hp : ArgumentAt nodesInfo n.2 p i link)
    (hroot : sheet.Root link u s) (hm : m ∈ sheet.nodes) (hq : ArgumentAt nodesInfo m.2 q j link')
    (hroot' : sheet.Root link' u s) (hsole : sheet.Sole link) : link = link' := by
  have hfrom := h.from_of_root hroot
  obtain ⟨v, r, o, hv, ho, hone⟩ := hsole
  obtain ⟨rfl, rfl⟩ := From.unique h.toSound hfrom hv
  obtain ⟨o₁, ho₁, hmem⟩ := h.mem_links hn hp hfrom
  obtain ⟨o₂, ho₂, hmem'⟩ := h.mem_links hm hq (h.from_of_root hroot')
  obtain rfl := some.inj (ho.symm.trans ho₁)
  obtain rfl := some.inj (ho.symm.trans ho₂)
  obtain ⟨l, hl⟩ := length_eq_one_iff.mp hone
  rw [hl, mem_singleton] at hmem hmem'
  exact hmem.trans hmem'.symm

theorem TakesOver.sole_of_argumentAt (hw : w ∈ sheet.nodes) (htakes : sheet.TakesOver nodesInfo w.2 t p)
    (hp : ArgumentAt nodesInfo w.2 p i link) : sheet.Sole link := by
  obtain ⟨i', link', hp', hsole⟩ := htakes.sole
  obtain ⟨-, rfl⟩ := hp.unique (h.nodes w hw) hp'
  exact hsole

theorem Direct.overwrites_unique (hw : w ∈ sheet.nodes) (ht : sheet.Overwrites nodesInfo w t u s)
    (hr : sheet.Overwrites nodesInfo w r u s) : t = r := by
  have hnot {t r : Nat} (ht : sheet.Overwrites nodesInfo w t u s)
      (hr : sheet.Overwrites nodesInfo w r u s) : ¬ t < r := by
    intro hlt
    obtain ⟨p, i, link, htakes, hp, hroot⟩ := ht
    obtain ⟨q, j, link', htakes', hq, hroot'⟩ := hr
    -- both arguments are of one link, so the twin of the first output is the twin of the second
    obtain rfl := h.eq_of_sole hw hp hroot hw hq hroot' (htakes.sole_of_argumentAt h hw hp)
    obtain rfl := h.apart w hw i hp.mem j hq.mem link hp.link hq.link
    obtain ⟨o, ho, hlinks, ⟨i', link', hp', htype⟩, honly⟩ := htakes.wants
    obtain ⟨rfl, -⟩ := hp.unique (h.nodes w hw) hp'
    obtain rfl : q = p := honly q ⟨i, link, hq, htype⟩
    exact htakes'.first t hlt o ho hlinks ⟨⟨i, link', hp', htype⟩, honly⟩
  exact Nat.le_antisymm (Nat.not_lt.mp (hnot hr ht)) (Nat.not_lt.mp (hnot ht hr))

end Links

section Statements

variable {cs earlier later : List Contribution} {c : Contribution} {x : String}
  (hcs : sheet.Statements nodesInfo cs)

include hcs

theorem Direct.undisturbed : sheet.Undisturbed nodesInfo cs := by
  intro earlier c later hsplit w hw hwid _ t u s hover c' hc' p
  refine ⟨fun hreads => ?_, fun r hlt hover' _ => ?_⟩
  · obtain ⟨q, i, link, htakes, hq, hroot⟩ := hover
    obtain ⟨v, hv, hvid, -, j, link', hp, hroot'⟩ := hreads
    obtain rfl := h.eq_of_sole hw hq hroot hv hp hroot' (htakes.sole_of_argumentAt h hw hq)
    -- both nodes are where the link ends, but a node has one statement
    obtain ⟨e, he, hkey, htarget⟩ := h.target w hw i hq.mem link hq.link
    obtain ⟨e', he', hkey', htarget'⟩ := h.target v hv j hp.mem link hp.link
    obtain rfl := inj_on_of_nodup_map h.keys_nodup he he' (hkey.trans hkey'.symm)
    have hnode : c.node = c'.node := by rw [← hwid, ← hvid, ← htarget, htarget']
    have hnodup := hcs.nodup
    rw [hsplit, map_append, map_cons] at hnodup
    exact (nodup_cons.mp (nodup_append.mp hnodup).2.1).1
      (hnode ▸ mem_map_of_mem hc')
  · exact absurd (h.overwrites_unique hw hover hover') hlt.ne

theorem Direct.isCall (hc : c ∈ cs) : c.IsCall := by
  obtain ⟨earlier, later, hsplit⟩ := append_of_mem hc
  obtain ⟨n, hn, hc⟩ := hcs.contributes earlier c later hsplit
  have hplain := h.plain n hn
  have hintact := hcs.intact h.toSound (h.undisturbed hcs) hsplit
  have hnot {s s' : Nat} {x : String} (hs : c.targets.names[s]? = some x)
      (hs' : c.targets.names[s']? = some x) (hne : x ≠ "_") : ¬ s < s' := by
    intro hlt
    rcases hintact.taken hn hc hplain hs' hne with ⟨-, hfirst⟩ | ⟨u, t, hu, hover, ⟨e, he, hx⟩, hlast⟩
    · exact hfirst s hlt hs
    · rcases hintact.taken hn hc hplain hs hne with ⟨hfresh, -⟩ | ⟨v, r, hv, hover', -, hlast'⟩
      · exact hfresh e he hx
      · obtain ⟨hid, rfl⟩ := hlast.unique hlast'
        obtain rfl := h.eq_of_id hu hv hid
        exact hlt.ne (h.overwrites_unique hn hover' hover)
  have hstatement := hc.ordinary hplain
  exact ⟨hstatement.call, hstatement.used, fun s s' x hs hs' hne =>
    Nat.le_antisymm (Nat.not_lt.mp (hnot hs' hs hne)) (Nat.not_lt.mp (hnot hs hs' hne))⟩

theorem Direct.lastWritten (hsplit : cs = earlier ++ later) {id : Value} {s : Nat}
    (hlast : LastAssigned earlier x id s) (hne : x ≠ "_") : LastWritten earlier x id s := by
  have hstatement {c : Contribution} (hc : c ∈ earlier) :
      ∃ before node, sheet.Statement nodesInfo before node c := by
    obtain ⟨before, after, hsplit'⟩ := append_of_mem (hsplit ▸ mem_append_left later hc)
    obtain ⟨n, hn, hc⟩ := hcs.contributes before c after hsplit'
    exact ⟨before, n.2, hc.ordinary (h.plain n hn)⟩
  obtain ⟨front, c, back, rfl, hid, -, hslot, -, hback⟩ := hlast
  obtain ⟨_, _, hc⟩ := hstatement (c := c) (by simp)
  refine ⟨front, c, back, rfl, hid, hc.sets_eq ▸ hslot, fun c' hc' hx => ?_⟩
  obtain ⟨_, _, hc''⟩ := hstatement (c := c') (by simp [hc'])
  exact hback c' hc' (hc''.isActive hx hne) (hc''.sets_eq ▸ hx)

/-- Every argument of a link was last written for the output where the link starts. -/
theorem Direct.reads (hsplit : cs = earlier ++ c :: later) {n u : Value × Value} (hn : n ∈ sheet.nodes)
    (hid : n.1 = c.node) {i link : Value} {p s : Nat} (hp : ArgumentAt nodesInfo n.2 p i link)
    (hfrom : sheet.From link u s) :
    ∃ x, x ≠ "_" ∧ c.targets.arguments[p]?.bind Argument.name? = some x ∧
      LastWritten earlier x u.1 s := by
  have hreads : sheet.ReadsAt nodesInfo c p u s :=
    ⟨n, hn, hid, h.plain n hn, i, link, hp, u, s, hfrom, .ordinary (h.plain u hfrom.mem)⟩
  obtain ⟨x, hne, hx, e, he, heid, hxe⟩ := hcs.exists_reads h.toSound hsplit hreads
  have hlast := hcs.intact h.toSound (h.undisturbed hcs) hsplit e he u s x heid hxe hne
    ⟨c, mem_cons_self, p, hreads⟩
  exact ⟨x, hne, hx, h.lastWritten hcs hsplit hlast hne⟩

end Statements

/-! ## Statements that can be written -/

section Emission

variable {cs : List Contribution} {d : Draft} {n : Value × Value}

theorem Written.exists_arranges (hw : sheet.Written cs d) (hn : n ∈ sheet.nodes) :
    ∃ inputs, Arranges (placeOfInput d.graph) "inputs" n.2 inputs := by
  rcases (h.nodes n hn).inputs with hnone | ⟨items, hitems⟩
  · exact ⟨none, hnone⟩
  have hplace : ∀ i ∈ items, ∃ k : Int, placeOfInput d.graph i = .ok (.int k) := by
    intro i hi
    replace hi : i ∈ inputsOf n.2 := by rwa [inputsOf, itemsAt, hitems]
    obtain ⟨name, type, link, -, -, hlink⟩ := (h.writable n hn).inputs i hi
    obtain ⟨e, he, rfl, -⟩ := h.target n hn i hi link hlink
    obtain ⟨place, hplace⟩ := h.places e he
    unfold placeOfInput
    rw [field_eq_ok_iff.mpr (linkNumber?_eq_some_iff.mp hlink).1, ok_bind]
    split
    · exact ⟨place, by rw [hw.ends e he, ok_bind, hplace]⟩
    · exact ⟨_, rfl⟩
  obtain ⟨sorted, hsorted, -⟩ := sortOn_perm hplace
  exact ⟨some sorted, items, hitems, hsorted⟩

theorem Written.exists_named (hw : sheet.Written cs d) (hdue : sheet.Due cs n) {g : Graph}
    (hg : d.graph.Beside n.1 g) {inputs : List Value} (hinputs : ∀ i ∈ inputs, i ∈ inputsOf n.2)
    (widgets : List (String × Argument)) : ∃ named, linkedArguments g inputs widgets = .ok named := by
  obtain ⟨named, hnamed, -⟩ := foldlM_ok (f := putLinked g) (fun _ _ => True) inputs (b := widgets)
    (fun done i rest named hsplit _ => by
      have hi := hinputs i (hsplit ▸ by simp)
      obtain ⟨name, type, link, hname, htype, hlink⟩ := (h.writable n hdue.mem).inputs i hi
      obtain ⟨x, sole, hargument, -⟩ := hw.linkedArgument h.toSound hdue.mem hdue.new hi hlink
        (hdue.sources i hi link hlink) hg
      rw [field_eq_ok_iff.mpr htype] at hargument
      obtain ⟨hfield, hnull⟩ := linkNumber?_eq_some_iff.mp hlink
      refine ⟨Table.put name (.held x type sole) named, ?_, trivial⟩
      unfold putLinked
      rw [field_eq_ok_iff.mpr hfield, ok_bind]
      split
      · exact absurd rfl hnull
      · rw [hargument, field_eq_ok_iff.mpr hname]
        rfl) trivial
  exact ⟨named, hnamed⟩

theorem Written.exists_emit (hw : sheet.Written cs d) (hdue : sheet.Due cs n) :
    ∃ c d', (Workflow.emit nodesInfo n.1).run d = (.ok c, d') := by
  have hn := hdue.mem
  have hnode : d.graph.nodeOf n.1 = .ok n.2 := by
    simp [Graph.nodeOf, hashable_of_mem h.toSound hn, hw.pending n hn hdue.new]
  have hplain := h.plain n hn
  have hordinary := h.ordinary n hn hplain
  have hwritable := h.writable n hn
  obtain ⟨type, htype, -⟩ := hordinary.type
  obtain ⟨widgets, hwidgets⟩ := hwritable.widgets
  obtain ⟨names, hnames⟩ := hwritable.declared
  rw [htype] at hwidgets hnames
  have hfield : n.2.field "type" = .ok (.str type) := by
    unfold typeOf at htype
    cases hfield : n.2.field? "type" with
    | none =>
      rw [hfield] at htype
      cases htype
    | some found =>
      rw [hfield] at htype
      exact field_eq_ok_iff.mpr (hfield.trans (congrArg some htype))
  obtain ⟨inputs, harranged⟩ := hw.exists_arranges h hn
  obtain ⟨named, hnamed⟩ := hw.exists_named h hdue
    (.modifyVertex d.graph n.1 (Mark.ofInputs inputs).id_apply)
    (fun i hi => harranged.perm.subset hi) widgets
  obtain ⟨arguments, harguments⟩ : ∃ arguments, positional nodesInfo (.str type)
      (fun name => Table.find? name named) .absent = .ok arguments := by
    rw [positional_eq, hnames]
    exact ⟨_, rfl⟩
  let d₁ : Draft :=
    ⟨d.graph.modifyVertex n.1 (Mark.ofInputs inputs).apply, declare (Identifier.classId type) d.names⟩
  obtain ⟨t, d', ht⟩ : ∃ t d', (assignOutputs n.1 n.2 arguments).run d₁ = (.ok t, d') :=
    run_assignOutputs hwritable.outputs (h.nodes n hn).sorted
      (fun s o => IsOrdinaryNode.isOutput hordinary (h.nodes n hn)) hwritable.names d₁
  have hsketch : (sketch nodesInfo n.1).run d =
      (.ok ⟨n.2, .int 0, .str type, Identifier.classId type, named, t⟩, d') := by
    rw [run_sketch_iff]
    dsimp only
    exact ⟨type, widgets, inputs, arguments, hnode, field_eq_ok_iff.mpr (h.nodes n hn).mode, hfield, rfl, rfl,
      hwidgets, harranged, hnamed, harguments, ht⟩
  obtain ⟨c, hc, -⟩ := hw.sketch_ordinary h.toSound hdue hplain hsketch
  rw [hwritable.choice] at hc
  refine ⟨c, d', ?_⟩
  rw [emit_eq, run_bind_ok hsketch, hc]
  rfl

end Emission

theorem Direct.fault_sources : ∀ x ∈ sheet.nodes.map Prod.fst,
    (sources nodesInfo sheet.graph x).fault = none := by
  intro x hx
  obtain ⟨n, hn, rfl⟩ := mem_map.mp hx
  rcases sources_graph h.toSound hn with ⟨e, herror, -⟩ | heq
  · rw [(h.writable n hn).choice] at herror
    cases herror
  · rw [heq, fault_readEach_iff]
    intro i hi
    obtain ⟨name, type, link, -, -, hlink⟩ := (h.writable n hn).inputs i hi
    obtain ⟨e, he, rfl, -⟩ := h.target n hn i hi link hlink
    exact ⟨_, sourceOf_graph h.toSound he hlink⟩

/-- The statements of all nodes that the end nodes need can be written. -/
theorem Direct.exists_contributions {ends : Option Value} {ids : List Value}
    (hends : endsOf sheet.graph ends = .ok ids) (hids : ∀ id ∈ ids, id ∈ sheet.nodes.map Prod.fst) :
    ∃ cs, (Transpiler.contributions ⟨nodesInfo, sheet.graph⟩ ends).2.1 = .ok cs ∧
      sheet.Statements nodesInfo cs ∧ sheet.IsOrder (cs.map Contribution.node) ∧
      (∀ id ∈ ids, id ∈ cs.map Contribution.node) ∧
      ∀ id ∈ cs.map Contribution.node, ∃ e ∈ ids, Relation.ReflTransGen sheet.Feeds id e := by
  have hfault : (walkFrom nodesInfo sheet.graph ids).fault = none :=
    fault_walk (navigable_graph h.toSound) h.fault_sources _ hids
  obtain ⟨horder, hall, hneeded⟩ := sound_order h.toSound (fun id hid => h.isId_of_mem (hids id hid)) hfault
  obtain ⟨cs, d', hrun⟩ := horder.exists_run h.toSound
    (fun cs d n hw hdue => hw.exists_emit h hdue) (.start h.toSound)
  obtain ⟨hnodes, hstatements⟩ := statements_of_run h.toSound horder (.start h.toSound) hrun
  rw [← hnodes] at horder hall hneeded
  refine ⟨cs, ?_, hstatements, horder, hall, hneeded⟩
  unfold Transpiler.contributions
  simp only [order_of_endsOf hends, hrun, hfault]
  rfl

end Sheet

end Flowscript.Workflow
