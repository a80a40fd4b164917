import Flowscript.Proofs.Workflow.Links

/-!
# What a statement leaves behind

To choose the variables of its outputs, the statement of a node looks at its arguments and at the
names in use, and at nothing else of the graph. What it leaves in the graph is a mark on the vertex
of its node: the inputs and outputs in order, and the variables of the outputs.
-/

namespace Flowscript.Workflow

open List

variable {α β : Type} {d d' : Draft} {c : Contribution} {name : String} {id nodesInfo : Value}
  {names : List String}

/-! ## Variables -/

/-- The identifier of a name as a variable, with or without a number behind it. -/
def IsVariable (x : String) : Prop :=
  ∃ s, x = Identifier.variableId s ∨ ∃ n : Nat, x = Identifier.variableId s ++ Value.intText n

theorem not_isAsciiUpper_of_isDigit {c : Char} (h : c.isDigit = true) : Text.isAsciiUpper c = false := by
  simp only [Char.isDigit, Bool.and_eq_true, decide_eq_true_eq] at h
  simp only [Text.isAsciiUpper, Bool.and_eq_false_iff, decide_eq_false_iff_not, Char.le_def]
  exact .inl fun hle => absurd (UInt32.le_trans hle h.2) (by decide)

theorem IsVariable.eq_of_mem {x : String} (h : IsVariable x) {c : Char} (hc : c ∈ x.toList)
    (hupper : Text.isAsciiUpper c = true) : c = 'L' := by
  obtain ⟨s, hx | ⟨n, hx⟩⟩ := h
  · rw [hx] at hc
    exact Identifier.eq_of_mem_variableId hc hupper
  · rw [hx, String.toList_append, mem_append] at hc
    rcases hc with hname | hnumber
    · exact Identifier.eq_of_mem_variableId hname hupper
    · rw [not_isAsciiUpper_of_isDigit (Value.isDigit_of_mem_intText hnumber)] at hupper
      cases hupper

theorem isVariable_freshName (names : List String) (s : String) :
    IsVariable (freshName names (Identifier.variableId s)) := by
  unfold freshName
  refine ⟨s, ?_⟩
  by_cases hc : names.contains (Identifier.variableId s) = true
  · rw [if_pos hc]
    exact .inr (numberedName_eq names _ _ _)
  · rw [if_neg hc]
    exact .inl rfl

/-! ## Steps that look at names alone -/

/-- A step that is the same for every graph, and takes variables alone into use. -/
def OnNames (x : Drafting α) : Prop :=
  ∀ names, ∃ result names', (∀ g, x.run ⟨g, names⟩ = (result, ⟨g, names'⟩)) ∧
    ∀ y ∈ names', y ∈ names ∨ IsVariable y

theorem onNames_check (result : Except Fault α) : OnNames (check result) :=
  fun names => ⟨result, names, fun _ => rfl, fun _ => .inl⟩

theorem onNames_pure (a : α) : OnNames (pure a) := onNames_check (.ok a)

theorem onNames_throw (e : Fault) : OnNames (throw e : Drafting α) := onNames_check (.error e)

theorem OnNames.bind {x : Drafting α} {f : α → Drafting β} (hx : OnNames x)
    (hf : ∀ a, OnNames (f a)) : OnNames (x >>= f) := by
  intro names
  obtain ⟨result, names₁, hrun, hnames₁⟩ := hx names
  cases result with
  | error e => exact ⟨.error e, names₁, fun g => run_bind_error (hrun g), hnames₁⟩
  | ok a =>
    obtain ⟨result', names₂, hrun', hnames₂⟩ := hf a names₁
    refine ⟨result', names₂, fun g => (run_bind_ok (hrun g)).trans (hrun' g), fun y hy => ?_⟩
    exact (hnames₂ y hy).elim (hnames₁ y) .inr

theorem onNames_assignName (s : String) : OnNames (assignName (Identifier.variableId s)) := by
  intro names
  let name := freshName names (Identifier.variableId s)
  refine ⟨.ok name, names ++ [name], fun _ => rfl, fun y hy => ?_⟩
  rcases mem_append.mp hy with hold | hnew
  · exact .inl hold
  · exact .inr (mem_singleton.mp hnew ▸ isVariable_freshName names s)

theorem onNames_otherVariable (node output : Value) (single : Bool) (arguments : List Argument) :
    OnNames (otherVariable node output single arguments) := by
  unfold otherVariable
  split
  · exact onNames_pure _
  · exact (onNames_check _).bind fun _ => onNames_assignName _

theorem onNames_chooseVariable (node output : Value) (single : Bool) (t : Targets) :
    OnNames (chooseVariable node output single t) := by
  unfold chooseVariable
  refine (onNames_check _).bind fun twins => ?_
  split
  · dsimp only
    split
    · exact onNames_throw _
    · exact onNames_pure _
    · exact (onNames_otherVariable _ _ _ _).bind fun _ => onNames_pure _
  · exact (onNames_otherVariable _ _ _ _).bind fun _ => onNames_pure _

/-! ## Changes of a vertex -/

namespace Graph

variable {g : Graph} {id : Value}

theorem modifyVertex_modifyVertex (g : Graph) (id : Value) (f f' : Vertex → Vertex)
    (hf : ∀ x, (f x).id = x.id) :
    (g.modifyVertex id f).modifyVertex id f' = g.modifyVertex id (f' ∘ f) := by
  unfold modifyVertex
  simp only [map_map]
  congr 1
  refine map_congr_left fun x _ => ?_
  by_cases hx : (x.id == id) = true
  · simp [hx, hf]
  · simp [hx]

theorem modifyVertex_eq_self {f : Vertex → Vertex}
    (hf : ∀ x ∈ g.vertices, (x.id == id) = true → f x = x) : g.modifyVertex id f = g := by
  have hvertices : (g.vertices.map fun x => if x.id == id then f x else x) = g.vertices := by
    refine (map_congr_left fun x hx => ?_).trans (map_id _)
    by_cases hid : (x.id == id) = true
    · rw [if_pos hid, hf x hx hid, id_eq]
    · rw [if_neg hid, id_eq]
  unfold modifyVertex
  rw [hvertices]

end Graph

def recordAll (recorded : List (Value × String)) (ids : Option (List (Value × String))) :
    Option (List (Value × String)) :=
  recorded.foldl (fun ids entry => some (Table.put entry.1 entry.2 (ids.getD []))) ids

def setItems (name : String) (items : Option (List Value)) (node : Value) : Value :=
  match items with
  | none => node
  | some items => setField name (.list items) node

theorem field?_setField {other : String} (h : name ≠ other) (value node : Value) :
    (setField name value node).field? other = node.field? other := by
  unfold setField
  split
  · rw [Value.field?, Value.lookup_put, if_neg h, Value.field?]
  · rfl

theorem field?_setItems {other : String} (h : name ≠ other) (items : Option (List Value)) (node : Value) :
    (setItems name items node).field? other = node.field? other := by
  cases items with
  | none => rfl
  | some items => exact field?_setField h _ _

/-- What a statement leaves on the vertex of its node: the inputs and outputs in order, and the
variables of the outputs. -/
structure Mark where
  inputs : Option (List Value)
  outputs : Option (List Value)
  recorded : List (Value × String)

namespace Mark

def node (m : Mark) (node : Value) : Value :=
  setItems "outputs" m.outputs (setItems "inputs" m.inputs node)

def apply (m : Mark) (x : Vertex) : Vertex :=
  ⟨x.id, x.node.map m.node, recordAll m.recorded x.outputIds⟩

def ofRecorded (recorded : List (Value × String)) : Mark := ⟨none, none, recorded⟩

theorem field?_node {name : String} (hinputs : "inputs" ≠ name) (houtputs : "outputs" ≠ name) (m : Mark)
    (v : Value) : (m.node v).field? name = v.field? name := by
  rw [node, field?_setItems houtputs, field?_setItems hinputs]

@[simp]
theorem id_apply (m : Mark) (x : Vertex) : (m.apply x).id = x.id := rfl

theorem apply_ofRecorded_comp (m : Mark) (recorded : List (Value × String)) :
    (ofRecorded recorded).apply ∘ m.apply = ({ m with recorded := m.recorded ++ recorded } : Mark).apply := by
  funext x
  cases hnode : x.node with
  | none => simp [apply, hnode, ofRecorded, recordAll]
  | some v => simp [apply, hnode, ofRecorded, recordAll, Mark.node, setItems]

theorem modifyVertex_ofRecorded_nil (g : Graph) (id : Value) :
    g.modifyVertex id (ofRecorded []).apply = g := by
  refine Graph.modifyVertex_eq_self fun x _ _ => ?_
  cases hnode : x.node with
  | none =>
    obtain ⟨id', node, ids⟩ := x
    cases hnode
    rfl
  | some v =>
    obtain ⟨id', node, ids⟩ := x
    cases hnode
    rfl

end Mark

/-! ## Targets -/

section Targets

variable {id node : Value} {single : Bool} {t : Targets}

theorem run_recordOutput_of_hashable {slot : Value} (h : slot.hashable = true) (id : Value)
    (name : String) (g : Graph) (names : List String) :
    (recordOutput id slot name).run ⟨g, names⟩ =
      (.ok (), ⟨g.modifyVertex id (Mark.ofRecorded [(slot, name)]).apply, names⟩) := by
  let opened : Vertex → Vertex := fun x => { x with outputIds := some (x.outputIds.getD []) }
  let written : Vertex → Vertex := fun x => { x with outputIds := x.outputIds.map (Table.put slot name) }
  have hrun : (recordOutput id slot name).run ⟨g, names⟩ =
      (.ok (), ⟨(g.modifyVertex id opened).modifyVertex id written, names⟩) := by
    unfold recordOutput
    rw [run_bind_ok (run_modify _ _), h]
    rfl
  have hmark : written ∘ opened = (Mark.ofRecorded [(slot, name)]).apply := by
    funext x
    cases hnode : x.node with
    | none => simp [opened, written, Mark.apply, Mark.ofRecorded, recordAll, hnode]
    | some v => simp [opened, written, Mark.apply, Mark.ofRecorded, recordAll, Mark.node, setItems, hnode]
  rw [hrun, Graph.modifyVertex_modifyVertex g id opened written fun _ => rfl, hmark]

/-- What is recorded for an output: the variable that is its target if it is used, and otherwise
nothing. -/
def RecordsTarget (output slot : Value) (x : String) (recorded : List (Value × String)) : Prop :=
  isUsed output = .ok false ∧ x = "_" ∧ recorded = [] ∨ isUsed output = .ok true ∧ recorded = [(slot, x)]

theorem of_run_assignOutput_any {t' : Targets} {output : Value} {position : Nat}
    (h : (assignOutput id node single t output position).run d = (.ok t', d')) :
    ∃ recorded names', (∀ g, (assignOutput id node single t output position).run ⟨g, d.names⟩ =
        (.ok t', ⟨g.modifyVertex id (Mark.ofRecorded recorded).apply, names'⟩)) ∧
      (∀ y ∈ names', y ∈ d.names ∨ IsVariable y) ∧ ∃ x, t'.names = t.names ++ [x] ∧
        RecordsTarget output (slotOf output single position) x recorded := by
  obtain ⟨hused, rfl, rfl⟩ | ⟨hused, x, t₁, d₁, hchoose, hrecord, rfl⟩ := assignOutput_cases h
  · refine ⟨[], d'.names, fun g => ?_, fun y hy => .inl hy, "_", rfl, .inl ⟨hused, rfl, rfl⟩⟩
    rw [assignOutput, hused, Mark.modifyVertex_ofRecorded_nil]
    rfl
  · obtain ⟨result, names', hany, hnames⟩ := onNames_chooseVariable node output single t d.names
    obtain ⟨rfl, rfl⟩ := Prod.mk.inj ((hany d.graph).symm.trans hchoose)
    have hslot : (slotOf output single position).hashable = true := by
      by_contra hnot
      rw [Bool.not_eq_true] at hnot
      unfold recordOutput at hrecord
      rw [run_bind_ok (run_modify _ _), hnot] at hrecord
      cases hrecord
    refine ⟨[(slotOf output single position, x)], names', fun g => ?_, hnames, x, ?_, .inr ⟨hused, rfl⟩⟩
    · rw [assignOutput, hused, run_bind_ok (run_check _ _), if_pos rfl, run_bind_ok (hany g),
        run_bind_ok (run_recordOutput_of_hashable hslot id x g names')]
      rfl
    · rw [← (chooseVariable_spec hchoose).2.1]

theorem of_run_assignEach {items : List (Value × Nat)} {t' : Targets}
    (h : (items.foldlM (fun t (output, i) => assignOutput id node single t output i) t).run d = (.ok t', d')) :
    ∃ recorded names',
      (∀ g, (items.foldlM (fun t (output, i) => assignOutput id node single t output i) t).run ⟨g, d.names⟩ =
        (.ok t', ⟨g.modifyVertex id (Mark.ofRecorded recorded).apply, names'⟩)) ∧
      (∀ y ∈ names', y ∈ d.names ∨ IsVariable y) ∧
      ∀ entry ∈ recorded, ∃ item ∈ items, entry.1 = slotOf item.1 single item.2 := by
  induction items generalizing t d with
  | nil =>
    obtain ⟨rfl, -⟩ := of_run_pure h
    refine ⟨[], d.names, fun g => ?_, fun y hy => .inl hy, fun entry hentry => nomatch hentry⟩
    rw [Mark.modifyVertex_ofRecorded_nil]
    rfl
  | cons item rest ih =>
    rw [foldlM_cons] at h
    obtain ⟨t₁, d₁, hfirst, hrest⟩ := of_run_bind h
    obtain ⟨recorded₁, names₁, hany₁, hnames₁, x, -, hrecords⟩ := of_run_assignOutput_any hfirst
    obtain ⟨-, rfl⟩ := Prod.mk.inj ((hany₁ d.graph).symm.trans hfirst)
    obtain ⟨recorded₂, names₂, hany₂, hnames₂, hslots₂⟩ := ih hrest
    refine ⟨recorded₁ ++ recorded₂, names₂, fun g => ?_, fun y hy => ?_, fun entry hentry => ?_⟩
    · rw [foldlM_cons, run_bind_ok (hany₁ g), hany₂,
        Graph.modifyVertex_modifyVertex g id _ _ (Mark.id_apply _), Mark.apply_ofRecorded_comp]
      rfl
    · exact (hnames₂ y hy).elim (hnames₁ y) .inr
    · rcases mem_append.mp hentry with hfirst | hrest
      · rcases hrecords with ⟨-, -, rfl⟩ | ⟨-, rfl⟩
        · cases hfirst
        · exact ⟨item, mem_cons_self, congrArg Prod.fst (mem_singleton.mp hfirst)⟩
      · obtain ⟨item', hitem', hslot⟩ := hslots₂ entry hrest
        exact ⟨item', mem_cons_of_mem _ hitem', hslot⟩

def Arranges (key : Value → Except Fault Value) (name : String) (node : Value) :
    Option (List Value) → Prop
  | none => node.field? name = none
  | some sorted => ∃ items, node.field? name = some (.list items) ∧ sortOn key items = .ok sorted

theorem Arranges.perm {key : Value → Except Fault Value} {node : Value} {inputs : Option (List Value)}
    (h : Arranges key "inputs" node inputs) : (inputs.getD []).Perm (inputsOf node) := by
  cases inputs with
  | none =>
    rw [inputsOf, itemsAt, show node.field? "inputs" = none from h]
    exact .refl _
  | some sorted =>
    obtain ⟨items, hfield, hsorted⟩ := h
    rw [inputsOf, itemsAt, hfield]
    exact perm_of_sortOn hsorted

/-- The targets of a node are the same for every graph but for what they leave on its vertex. -/
theorem of_run_assignOutputs_any {arguments : List Argument}
    (h : (assignOutputs id node arguments).run d = (.ok t, d')) :
    ∃ (m : Mark) (names' : List String), m.inputs = none ∧
      Arranges (fun o => .ok (placeOfOutput o)) "outputs" node m.outputs ∧
      (∀ g, (assignOutputs id node arguments).run ⟨g, d.names⟩ =
        (.ok t, ⟨g.modifyVertex id m.apply, names'⟩)) ∧
      (∀ y ∈ names', y ∈ d.names ∨ IsVariable y) ∧
      ∀ entry ∈ m.recorded, ∃ outputs, m.outputs = some outputs ∧
        ∃ o ∈ outputs, ∃ i, entry.1 = slotOf o (outputs.length == 1) i := by
  obtain ⟨hfield, rfl, rfl⟩ | ⟨items, outputs, hfield, hsorted, hrun⟩ := assignOutputs_cases h
  · refine ⟨.ofRecorded [], d'.names, rfl, hfield, fun g => ?_, fun y hy => .inl hy,
      fun entry hentry => nomatch hentry⟩
    rw [assignOutputs, hfield, Mark.modifyVertex_ofRecorded_nil]
    rfl
  · obtain ⟨recorded, names', hany, hnames, hslots⟩ := of_run_assignEach hrun
    refine ⟨⟨none, some outputs, recorded⟩, names', rfl, ⟨items, hfield, hsorted⟩, fun g => ?_,
      hnames, fun entry hentry => ⟨outputs, rfl, ?_⟩⟩
    · have hwrite : (writeField id "outputs" (.list outputs)).run ⟨g, d.names⟩ =
          (.ok (), ⟨g.modifyVertex id (Mark.mk none (some outputs) []).apply, d.names⟩) := rfl
      have hcheck : (check do sortOn (fun o => .ok (placeOfOutput o)) (← itemsOf (.list items))).run
          ⟨g, d.names⟩ = (.ok outputs, ⟨g, d.names⟩) := Prod.ext hsorted rfl
      rw [assignOutputs, hfield]
      refine (run_bind_ok hcheck).trans ((run_bind_ok hwrite).trans ((hany _).trans ?_))
      rw [Graph.modifyVertex_modifyVertex g id _ _ (Mark.id_apply _), Mark.apply_ofRecorded_comp]
      rfl
    · obtain ⟨⟨o, i⟩, hitem, hslot⟩ := hslots entry hentry
      exact ⟨o, fst_mem_of_mem_zipIdx hitem, i, hslot⟩

end Targets

/-! ## Arguments -/

def Mark.ofInputs (inputs : Option (List Value)) : Mark := ⟨inputs, none, []⟩

theorem run_argumentsOf_iff {node type : Value} {g : Graph} {named : List (String × Argument)} :
    (argumentsOf nodesInfo id node type).run ⟨g, names⟩ = (.ok named, d') ↔
      ∃ widgets inputs, widgetArguments nodesInfo node type = .ok widgets ∧
        Arranges (placeOfInput g) "inputs" node inputs ∧
        linkedArguments (g.modifyVertex id (Mark.ofInputs inputs).apply) (inputs.getD []) widgets =
          .ok named ∧
        d' = ⟨g.modifyVertex id (Mark.ofInputs inputs).apply, names⟩ := by
  have hwrite (inputs : List Value) : (writeField id "inputs" (.list inputs)).run ⟨g, names⟩ =
      (.ok (), ⟨g.modifyVertex id (Mark.ofInputs (some inputs)).apply, names⟩) := rfl
  unfold argumentsOf
  constructor
  · intro h
    obtain ⟨widgets, hwidgets, h⟩ := of_run_check_bind h
    cases hfield : node.field? "inputs" with
    | none =>
      rw [hfield] at h
      obtain ⟨rfl, rfl⟩ := of_run_pure h
      exact ⟨widgets, none, hwidgets, hfield, rfl, by rw [Mark.ofInputs, ← Mark.ofRecorded,
        Mark.modifyVertex_ofRecorded_nil]⟩
    | some value =>
      rw [hfield] at h
      dsimp only at h
      rw [run_bind_ok (run_get _)] at h
      obtain ⟨inputs, hsort, h⟩ := of_run_check_bind h
      rw [run_bind_ok (hwrite inputs), run_bind_ok (run_get _)] at h
      obtain ⟨hlinked, rfl⟩ := of_run_check h
      obtain ⟨items, hitems, hsorted⟩ := ok_of_bind hsort
      rw [itemsOf_eq_ok_iff.mp hitems] at hfield
      exact ⟨widgets, some inputs, hwidgets, ⟨items, hfield, hsorted⟩, hlinked, rfl⟩
  · rintro ⟨widgets, inputs, hwidgets, hinputs, hlinked, rfl⟩
    have hcheck : (check (widgetArguments nodesInfo node type)).run ⟨g, names⟩ =
        (.ok widgets, ⟨g, names⟩) := Prod.ext hwidgets rfl
    rw [run_bind_ok hcheck]
    cases inputs with
    | none =>
      have hfield : node.field? "inputs" = none := hinputs
      obtain rfl := Except.ok.inj hlinked
      rw [hfield, Mark.ofInputs, ← Mark.ofRecorded, Mark.modifyVertex_ofRecorded_nil]
      rfl
    | some sorted =>
      obtain ⟨items, hfield, hsorted⟩ := hinputs
      rw [hfield]
      dsimp only
      have hsort : (check do sortOn (placeOfInput g) (← itemsOf (.list items))).run ⟨g, names⟩ =
          (.ok sorted, ⟨g, names⟩) := Prod.ext hsorted rfl
      rw [run_bind_ok (run_get _), run_bind_ok hsort, run_bind_ok (hwrite sorted), run_bind_ok (run_get _)]
      exact Prod.ext hlinked rfl

theorem run_sketch_iff {k : Sketch} : (sketch nodesInfo id).run d = (.ok k, d') ↔
    ∃ name widgets inputs arguments, d.graph.nodeOf id = .ok k.node ∧
      k.node.field "mode" = .ok k.mode ∧ k.node.field "type" = .ok k.type ∧
      Identifier.nameOf k.type = .ok name ∧ k.callee = Identifier.classId name ∧
      widgetArguments nodesInfo k.node k.type = .ok widgets ∧
      Arranges (placeOfInput d.graph) "inputs" k.node inputs ∧
      linkedArguments (d.graph.modifyVertex id (Mark.ofInputs inputs).apply) (inputs.getD []) widgets =
        .ok k.named ∧
      positional nodesInfo k.type (fun name => Table.find? name k.named) .absent = .ok arguments ∧
      (assignOutputs id k.node arguments).run ⟨d.graph.modifyVertex id (Mark.ofInputs inputs).apply,
        declare k.callee d.names⟩ = (.ok k.targets, d') := by
  constructor
  · intro h
    obtain ⟨name, arguments, d₁, hnode, hmode, htype, hname, hcallee, hnamed, harguments, htargets⟩ :=
      of_run_sketch_steps h
    obtain ⟨widgets, inputs, hwidgets, hinputs, hlinked, rfl⟩ := run_argumentsOf_iff.mp hnamed
    exact ⟨name, widgets, inputs, arguments, hnode, hmode, htype, hname, hcallee, hwidgets, hinputs,
      hlinked, harguments, htargets⟩
  · obtain ⟨node, mode, type, callee, named, targets⟩ := k
    rintro ⟨name, widgets, inputs, arguments, hnode, hmode, htype, hname, rfl, hwidgets, hinputs, hlinked,
      harguments, htargets⟩
    have hcheck {α : Type} {result : Except Fault α} {a : α} (hresult : result = .ok a) (d : Draft) :
        (check result).run d = (.ok a, d) := Prod.ext hresult rfl
    have hnamed : (argumentsOf nodesInfo id node type).run
        ⟨d.graph, declare (Identifier.classId name) d.names⟩ = (.ok named, _) :=
      run_argumentsOf_iff.mpr ⟨widgets, inputs, hwidgets, hinputs, hlinked, rfl⟩
    unfold sketch
    rw [run_bind_ok (run_get _), run_bind_ok (hcheck hnode _), run_bind_ok (hcheck hmode _),
      run_bind_ok (hcheck htype _), run_bind_ok (hcheck hname _), run_bind_ok (run_declareName_eq _ _ _),
      run_bind_ok hnamed, run_bind_ok (hcheck harguments _), run_bind_ok htargets]
    rfl

/-! ## Statements -/

structure Emission where
  node : Value
  mode : Value
  type : Value
  name : String
  widgets : List (String × Argument)
  named : List (String × Argument)
  arguments : List Argument
  targets : Targets
  mark : Mark

structure Emission.Gives (e : Emission) (nodesInfo id : Value) (g : Graph) (names : List String)
    (c : Contribution) (names' : List String) : Prop where
  node : g.nodeOf id = .ok e.node
  mode : e.node.field "mode" = .ok e.mode
  type : e.node.field "type" = .ok e.type
  name : Identifier.nameOf e.type = .ok e.name
  widgets : widgetArguments nodesInfo e.node e.type = .ok e.widgets
  inputs : Arranges (placeOfInput g) "inputs" e.node e.mark.inputs
  linked : linkedArguments (g.modifyVertex id (Mark.ofInputs e.mark.inputs).apply)
    (e.mark.inputs.getD []) e.widgets = .ok e.named
  arguments : positional nodesInfo e.type (fun name => Table.find? name e.named) .absent =
    .ok e.arguments
  outputs : Arranges (fun o => .ok (placeOfOutput o)) "outputs" e.node e.mark.outputs
  targets : ∀ h, (assignOutputs id e.node e.arguments).run
      ⟨h, declare (Identifier.classId e.name) names⟩ =
    (.ok e.targets, ⟨h.modifyVertex id (Mark.mk none e.mark.outputs e.mark.recorded).apply, names'⟩)
  fresh : ∀ x ∈ names', x ∈ names ∨ x = Identifier.classId e.name ∨ IsVariable x
  slots : ∀ entry ∈ e.mark.recorded, ∃ outputs, e.mark.outputs = some outputs ∧
    ∃ o ∈ outputs, ∃ i, entry.1 = slotOf o (outputs.length == 1) i
  contribute : contribute nodesInfo id e.node e.mode e.type (Identifier.classId e.name) e.named
    e.targets = .ok c

theorem Mark.apply_comp_ofInputs (m : Mark) :
    (Mark.mk none m.outputs m.recorded).apply ∘ (Mark.ofInputs m.inputs).apply = m.apply := by
  funext x
  cases hnode : x.node with
  | none => simp [apply, hnode, ofInputs, recordAll]
  | some v => simp [apply, hnode, ofInputs, recordAll, Mark.node, setItems]

theorem Emission.Gives.run {e : Emission} {g : Graph} {names' : List String}
    (h : e.Gives nodesInfo id g names c names') :
    (emit nodesInfo id).run ⟨g, names⟩ = (.ok c, ⟨g.modifyVertex id e.mark.apply, names'⟩) := by
  have hsketch : (sketch nodesInfo id).run ⟨g, names⟩ =
      (.ok ⟨e.node, e.mode, e.type, Identifier.classId e.name, e.named, e.targets⟩,
        ⟨(g.modifyVertex id (Mark.ofInputs e.mark.inputs).apply).modifyVertex id
          (Mark.mk none e.mark.outputs e.mark.recorded).apply, names'⟩) := by
    rw [run_sketch_iff]
    dsimp only
    exact ⟨e.name, e.widgets, e.mark.inputs, e.arguments, h.node, h.mode, h.type, h.name, rfl, h.widgets,
      h.inputs, h.linked, h.arguments, h.targets _⟩
  rw [emit_eq, run_bind_ok hsketch, h.contribute, Graph.modifyVertex_modifyVertex g id _ _ (Mark.id_apply _),
    Mark.apply_comp_ofInputs]
  rfl

theorem Emission.Gives.graph_eq {e : Emission} {names' : List String}
    (he : e.Gives nodesInfo id d.graph d.names c names') (h : (emit nodesInfo id).run d = (.ok c, d')) :
    d'.graph = d.graph.modifyVertex id e.mark.apply :=
  congrArg (Draft.graph ∘ Prod.snd) (h.symm.trans he.run)

theorem exists_gives (h : (emit nodesInfo id).run d = (.ok c, d')) :
    ∃ e : Emission, e.Gives nodesInfo id d.graph d.names c d'.names := by
  obtain ⟨k, hk, hcontribute⟩ := of_run_emit h
  obtain ⟨name, widgets, inputs, arguments, hnode, hmode, htype, hname, hcallee, hwidgets, hinputs, hlinked,
    harguments, htargets⟩ := run_sketch_iff.mp hk
  rw [hcallee] at htargets hcontribute
  obtain ⟨m, names', hnone, houtputs, hany, hfresh, hslots⟩ := of_run_assignOutputs_any htargets
  obtain ⟨-, rfl⟩ := Prod.mk.inj ((hany _).symm.trans htargets)
  have hm : Mark.mk none m.outputs m.recorded = m := by
    rw [← hnone]
  refine ⟨⟨k.node, k.mode, k.type, name, widgets, k.named, arguments, k.targets,
      ⟨inputs, m.outputs, m.recorded⟩⟩,
    hnode, hmode, htype, hname, hwidgets, hinputs, hlinked, harguments, houtputs, ?_, ?_, hslots, hcontribute⟩
  · intro h
    dsimp only
    rw [hm]
    exact hany h
  · intro x hx
    rcases hfresh x hx with hold | hnew
    · exact (mem_declare_iff.mp hold).imp_right .inl
    · exact .inr (.inr hnew)

end Flowscript.Workflow
