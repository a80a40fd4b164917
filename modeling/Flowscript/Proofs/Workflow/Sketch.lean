import Flowscript.Proofs.Workflow.Callees
import Flowscript.Proofs.Workflow.Holding

/-!
# Statements before the passes

The statement of a node is drawn up first, and then the passes look at it. What is drawn up is a
sketch: the call with its arguments and targets. In the drafts of a workflow every name in a sketch
is that of a variable, or `_`.
-/

namespace Flowscript.Workflow

def Sketch.statement (k : Sketch) : Statement := k.targets.call k.callee

theorem statementOf_sketch (k : Sketch) (hmode : (k.mode == bypassMode) = false) :
    statementOf k.mode k.callee k.targets = some k.statement := by
  unfold statementOf
  rw [hmode, if_neg Bool.false_ne_true]
  rfl

/-- Every name that is recorded for an output is that of a variable, or `_`. -/
def Draft.HoldsVariables (d : Draft) : Prop := ∀ x, d.graph.Records x → x = "_" ∨ IsVariable x

section Variables

variable {d d' : Draft} {nodesInfo id : Value}

theorem holdsVariables_of_isFresh {g : Graph} (h : g.IsFresh) (names : List String) :
    Draft.HoldsVariables ⟨g, names⟩ := by
  rintro x ⟨v, hv, ids, hids, -⟩
  cases (h v hv).symm.trans hids

theorem Draft.HoldsVariables.emit {c : Contribution} (h : d.HoldsVariables)
    (hemit : (emit nodesInfo id).run d = (.ok c, d')) : d'.HoldsVariables := by
  have hcontinues := continues_emit hemit
  obtain ⟨_, -, hinvokes, -⟩ := invokes_emit hemit
  intro x hx
  rcases hcontinues.grows.records x hx with hold | hnew
  · exact h x hold
  rcases hinvokes.names x hnew with hblank | hgiven | ⟨-, -, hvariable⟩
  · exact .inl hblank
  · exact h x (hcontinues.inputs x hgiven)
  · exact .inr hvariable

theorem Draft.HoldsVariables.emitAll {ids : List Value} {cs : List Contribution} (h : d.HoldsVariables)
    (hrun : (Transpiler.emitAll nodesInfo ids).run d = (.ok cs, d')) : d'.HoldsVariables :=
  of_run_emitAll (fun _ d => d.HoldsVariables) (fun h hemit => h.emit hemit) [] h hrun

structure Sketch.Of (k : Sketch) (nodesInfo id : Value) (d : Draft) : Prop where
  node : d.graph.nodeOf id = .ok k.node
  mode : k.node.field "mode" = .ok k.mode
  type : k.node.field "type" = .ok k.type
  name : ∃ name, Identifier.nameOf k.type = .ok name ∧ k.callee = Identifier.classId name
  widgets : ∃ widgets, widgetArguments nodesInfo k.node k.type = .ok widgets
  targets : ∃ arguments d₁ d₂, (assignOutputs id k.node arguments).run d₁ = (.ok k.targets, d₂)
  reads : ∀ x ∈ variablesOf k.targets.arguments, d.graph.Records x
  names : ∀ x ∈ k.targets.names, x = "_" ∨ d.graph.Records x ∨ IsVariable x

theorem of_run_sketch {k : Sketch} (h : (sketch nodesInfo id).run d = (.ok k, d')) :
    k.Of nodesInfo id d := by
  obtain ⟨name, widgets, inputs, arguments, hnode, hmode, htype, hname, hcallee, hwidgets, hinputs,
    hlinked, harguments, htargets⟩ := run_sketch_iff.mp h
  have hnamed : (argumentsOf nodesInfo id k.node k.type).run
      ⟨d.graph, declare (Identifier.classId name) d.names⟩ = (.ok k.named, _) :=
    run_argumentsOf_iff.mpr ⟨widgets, inputs, hwidgets, hinputs, hlinked, rfl⟩
  obtain ⟨-, hread⟩ := extends_argumentsOf hnamed
  have hfollows := follows_assignOutputs htargets
  obtain ⟨m, names', -, -, hany, hfresh, -⟩ := of_run_assignOutputs_any htargets
  obtain ⟨-, rfl⟩ := Prod.mk.inj ((hany _).symm.trans htargets)
  have hreads : ∀ x ∈ variablesOf arguments, d.graph.Records x := by
    intro x hx
    obtain ⟨a, ha, hvar⟩ := List.mem_filterMap.mp hx
    rcases allGiven_positional harguments a ha with rfl | ⟨argument, hargument⟩
    · cases hvar
    · exact hread (argument, a) (Table.mem_of_find? hargument) x hvar
  refine ⟨hnode, hmode, htype, ⟨name, hname, hcallee⟩, ⟨widgets, hwidgets⟩,
    ⟨arguments, _, _, htargets⟩, ?_, ?_⟩
  · rw [hfollows.reads]
    exact hreads
  · intro x hx
    rcases hfollows.names x hx with hblank | hgiven | ⟨hnot, hin⟩
    · exact .inl hblank
    · exact .inr (.inl (hreads x hgiven))
    · exact .inr (.inr ((hfresh x hin).resolve_left hnot))

theorem exists_sketch {c : Contribution} (h : (emit nodesInfo id).run d = (.ok c, d')) :
    ∃ k : Sketch, k.Of nodesInfo id d ∧
      contribute nodesInfo id k.node k.mode k.type k.callee k.named k.targets = .ok c := by
  obtain ⟨k, hk, hcontribute⟩ := of_run_emit h
  exact ⟨k, of_run_sketch hk, hcontribute⟩

theorem isWordy_of_isVariable {x : String} (h : x = "_" ∨ IsVariable x) : IsWordy x := by
  rcases h with hx | ⟨s, hx | ⟨n, hx⟩⟩
  · rw [hx]
    intro c hc
    obtain rfl : c = '_' := by simpa using hc
    exact Identifier.isWord_of_isAsciiWord rfl
  · rw [hx]
    exact fun c hc => Identifier.isWord_of_mem_variableId hc
  · rw [hx]
    exact isWordy_append (fun c hc => Identifier.isWord_of_mem_variableId hc) (isWordy_intText n)

namespace Sketch.Of

variable {k : Sketch} (hk : k.Of nodesInfo id d)

include hk

theorem isWordy_callee : IsWordy k.callee := by
  obtain ⟨name, -, hcallee⟩ := hk.name
  rw [hcallee]
  exact fun c hc => Identifier.isWord_of_mem_classId hc

theorem isWordy_names (h : d.HoldsVariables) {x : String} (hx : x ∈ k.targets.names) : IsWordy x := by
  rcases hk.names x hx with hblank | hrecorded | hvariable
  · exact isWordy_of_isVariable (.inl hblank)
  · exact isWordy_of_isVariable (h x hrecorded)
  · exact isWordy_of_isVariable (.inr hvariable)

theorem isWordy_held (h : d.HoldsVariables) {x : String} {type : Value} {mayMove : Bool}
    (hx : .held x type mayMove ∈ k.targets.arguments) : IsWordy x :=
  isWordy_of_isVariable (h x (hk.reads x (mem_variablesOf hx rfl)))

theorem choiceOfNode_ok {type : String} (htype : k.type = .str type)
    (hnot : type ∉ multiplexers.map Multiplexer.nodeType) :
    choiceOfNode nodesInfo k.node = .ok none := by
  obtain ⟨widgets, hwidgets⟩ := hk.widgets
  unfold choiceOfNode widgetsOfNode
  split
  next values _ hvalues =>
    rw [widgetArguments, hvalues] at hwidgets
    obtain ⟨named, hnamed, -⟩ := ok_of_bind hwidgets
    rw [htype] at hnamed
    simp only [hk.type, ok_bind, hnamed, htype, choice?_of_not_mem hnot]
  · rfl

end Sketch.Of

end Variables

end Flowscript.Workflow
