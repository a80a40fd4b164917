import Flowscript.Proofs.Registry.Bindings
import Flowscript.Proofs.Workflow.Closed
import Flowscript.Proofs.Workflow.Effects

/-!
# What scripts call

A statement calls the class identifier of the type of its node. A registry may have that identifier
for another name, and then has the node under an identifier with underscores behind it; and an
earlier statement may have taken the identifier for a variable. This module says exactly when a
callee stands for the node that is meant, and that a statement never takes an identifier that it or
one before it calls.
-/

namespace Flowscript.Workflow

open List Option

def Graph.typeName (g : Graph) (id : Value) : Except Fault String := do
  Identifier.nameOf (← (← g.nodeOf id).field "type")

theorem Graph.typeName_apply (g : Graph) (id other : Value) (m : Mark) :
    (g.modifyVertex id m.apply).typeName other = g.typeName other := by
  unfold typeName nodeOf
  rw [vertex?_modifyVertex g id other m.id_apply]
  cases g.vertex? other with
  | none => rfl
  | some x =>
    cases hashable : other.hashable with
    | false => rfl
    | true =>
      by_cases hid : (x.id == id) = true
      · simp only [map_some, if_pos hid, bind_some, Mark.apply]
        cases x.node with
        | none => rfl
        | some v =>
          have htype : (m.node v).field "type" = v.field "type" := by
            unfold Value.field
            rw [Mark.field?_node (by decide) (by decide)]
          simp only [map_some, Bool.not_true, Bool.false_eq_true, if_false, ok_bind, htype]
      · simp only [map_some, if_neg hid]

def Contribution.callee? (c : Contribution) : Option String :=
  c.statement.bind fun s => match s.expression with
    | .call callee _ => some callee
    | .move _ => none

/-- The statement calls the class identifier of a name, and its outputs take variables that their
node is given or new ones that are not that identifier. -/
structure Contribution.Invokes (c : Contribution) (name : String) (d d' : Draft) : Prop where
  callee : ∀ callee, c.callee? = some callee → callee = Identifier.classId name
  names : ∀ x ∈ c.targets.names, x = "_" ∨ x ∈ c.inputs ∨
    x ∉ d.names ∧ x ≠ Identifier.classId name ∧ IsVariable x
  declared : Identifier.classId name ∈ d'.names

variable {d d' : Draft} {nodesInfo id : Value} {c : Contribution} {cs earlier : List Contribution}
  {ids : List Value}

theorem eq_of_callee? {mode : Value} {called callee : String} {t : Targets}
    (hstatement : c.statement = statementOf mode called t) (h : c.callee? = some callee) :
    callee = called := by
  obtain ⟨s, hs, hcall⟩ := bind_eq_some_iff.mp h
  rw [hstatement] at hs
  unfold statementOf at hs
  split at hs
  · split at hs
    · cases hs
      cases hcall
    · cases hs
  · cases hs
    cases hcall
    rfl

theorem invokes_emit (h : (emit nodesInfo id).run d = (.ok c, d')) :
    ∃ name, d.graph.typeName c.node = .ok name ∧ c.Invokes name d d' ∧
      ∀ other, d'.graph.typeName other = d.graph.typeName other := by
  obtain ⟨e, he⟩ := exists_gives h
  have hgraph := he.graph_eq h
  obtain ⟨rfl, htargets, hstatement, -⟩ := contribute_spec he.contribute
  have hfollows := follows_assignOutputs (he.targets d.graph)
  refine ⟨e.name, ?_, ⟨?_, ?_, ?_⟩, fun other => hgraph ▸ Graph.typeName_apply _ _ _ _⟩
  · rw [Graph.typeName, he.node, ok_bind, he.type, ok_bind, he.name]
  · exact fun callee => eq_of_callee? hstatement
  · intro x hx
    rw [Contribution.inputs, htargets, hfollows.reads]
    rcases hfollows.names x (htargets ▸ hx) with hblank | hgiven | ⟨hnot, hin⟩
    · exact .inl hblank
    · exact .inr (.inl hgiven)
    · -- a new name is neither in use nor the callee, so it is a variable
      rw [mem_declare_iff, not_or] at hnot
      exact .inr (.inr ⟨hnot.1, hnot.2, ((he.fresh x hin).resolve_left hnot.1).resolve_left hnot.2⟩)
  · exact hfollows.grows.names _ (mem_declare_iff.mpr (.inr rfl))

theorem forall_names_emitAll {P : String → Prop} (hl : Ledger earlier d)
    (h : (Transpiler.emitAll nodesInfo ids).run d = (.ok cs, d'))
    (hnew : ∀ {id c d₁ d₂}, (∀ x ∈ d.names, x ∈ d₁.names) → (emit nodesInfo id).run d₁ = (.ok c, d₂) →
      ∀ x ∈ c.targets.names, x ∈ c.inputs ∨ P x)
    (hearlier : ∀ e ∈ earlier, ∀ x ∈ e.targets.names, P x) : ∀ e ∈ cs, ∀ x ∈ e.targets.names, P x := by
  have hall := of_run_emitAll (fun cs d₁ => Ledger cs d₁ ∧ (∀ x ∈ d.names, x ∈ d₁.names) ∧
    ∀ e ∈ cs, ∀ x ∈ e.targets.names, P x) ?_ earlier
    ⟨hl, fun _ hx => hx, hearlier⟩ h
  · exact fun e he => hall.2.2 e (mem_append_right _ he)
  rintro earlier d₁ id c d₂ ⟨hl, hnames, hearlier⟩ hemit
  have hcontinues := continues_emit hemit
  refine ⟨hl.append hcontinues, fun x hx => hcontinues.grows.names x (hnames x hx),
    forall_mem_append.mpr ⟨hearlier, forall_mem_singleton.mpr fun x hmem => ?_⟩⟩
  rcases hnew hnames hemit x hmem with hgiven | hx
  · obtain ⟨e, he, hxe⟩ := hl.records x (hcontinues.inputs x hgiven)
    exact hearlier e he x hxe
  · exact hx

theorem not_chosen_emitAll (hl : Ledger earlier d)
    (h : (Transpiler.emitAll nodesInfo ids).run d = (.ok cs, d')) {x : String} (hx : x ∈ d.names)
    (hne : x ≠ "_") (hearlier : ∀ e ∈ earlier, x ∉ e.targets.names) :
    ∀ e ∈ cs, x ∉ e.targets.names := by
  have hall := forall_names_emitAll (P := (· ≠ x)) hl h (fun hnames hemit y hy => ?_)
    fun e he y hy heq => hearlier e he (heq ▸ hy)
  · exact fun e he hmem => hall e he x hmem rfl
  · rcases (continues_emit hemit).names y hy with rfl | hgiven | ⟨hnot, -⟩
    · exact .inr hne.symm
    · exact .inl hgiven
    · exact .inr fun heq => hnot (heq ▸ hnames x hx)

theorem isVariable_emitAll (hl : Ledger [] d)
    (h : (Transpiler.emitAll nodesInfo ids).run d = (.ok cs, d')) :
    ∀ e ∈ cs, ∀ x ∈ e.targets.names, x = "_" ∨ IsVariable x := by
  refine forall_names_emitAll hl h (fun _ hemit x hx => ?_) (forall_mem_nil _)
  obtain ⟨_, -, hinvokes, -⟩ := invokes_emit hemit
  rcases hinvokes.names x hx with hblank | hgiven | ⟨-, -, hvariable⟩
  · exact .inr (.inl hblank)
  · exact .inl hgiven
  · exact .inr (.inr hvariable)

theorem typeName_emitAll (h : (Transpiler.emitAll nodesInfo ids).run d = (.ok cs, d')) (other : Value) :
    d'.graph.typeName other = d.graph.typeName other := by
  refine of_run_emitAll (fun _ d₁ => d₁.graph.typeName other = d.graph.typeName other)
    (fun hd hemit => ?_) [] rfl h
  obtain ⟨_, -, -, hkeeps⟩ := invokes_emit hemit
  exact (hkeeps other).trans hd

theorem of_run_emitAll_append (hl : Ledger earlier d)
    (h : (Transpiler.emitAll nodesInfo ids).run d = (.ok cs, d')) {before after : List Contribution}
    (hcs : cs = before ++ c :: after) :
    ∃ d₁ d₂ name rest, d.graph.typeName c.node = .ok name ∧ c.Invokes name d₁ d₂ ∧
      c.Continues d₁ d₂ ∧ Ledger (earlier ++ before) d₁ ∧
      (Transpiler.emitAll nodesInfo rest).run d₂ = (.ok after, d') := by
  obtain ⟨_, _, rest, d₁, d₂, -, hbefore, hemit, hrest⟩ := of_run_emitAll_split h hcs
  obtain ⟨name, htype, hinvokes, -⟩ := invokes_emit hemit
  rw [typeName_emitAll hbefore] at htype
  exact ⟨d₁, d₂, name, rest, htype, hinvokes, continues_emit hemit, hl.emitAll hbefore, hrest⟩

namespace Transpiler

/-- In the script of a workflow, the callee of a statement is the class identifier of the type of its
node. Where a node of that name was added to a registry, the callee stands for it there if and only
if it is registered as a node and the identifier is neither kept for enumerations nor bound to
another name. No statement takes the callee for a variable if none before does, and none takes one
with an ASCII capital other than `L`. -/
theorem callees_stand_for_nodes {hiddenInputs : Bool} {maxEnumValues : Int}
    {embeddings : Option (Except Fault Value)} {added : List Registry.Adding}
    (hadded : (Registry.initial hiddenInputs maxEnumValues embeddings).AddsAll added)
    {workflow nodesInfo ends : Value} {standalone : Bool} {t : Transpiler} {text : String}
    (ht : (openWorkflow workflow nodesInfo).2 = .ok t)
    (h : (t.script ends standalone).1.script = .ok text) :
    ∃ cs, t.contributionsFor ends = .ok cs ∧ text = textOf standalone cs ∧
      (∀ e ∈ cs, ∀ s, e.statement = some s → s.targets = e.targets.names) ∧
      ∀ before c after, cs = before ++ c :: after →
        ∀ callee, c.callee? = some callee → ∃ name, t.graph.typeName c.node = .ok name ∧
          callee = Identifier.classId name ∧
          ((∃ a ∈ added, Registering.named a.info = .ok name) →
            let r := (Registry.initial hiddenInputs maxEnumValues embeddings).addNodes added
            let kept := (Registry.initial hiddenInputs maxEnumValues embeddings).vars.map Prod.fst
            (r.StandsFor callee name ↔ name ∈ r.nodes.map Prod.fst ∧ callee ∉ kept ∧
              ∀ raw, r.Binds raw callee → raw = name)) ∧
          (callee ≠ "_" → ((∀ e ∈ cs, callee ∉ e.targets.names) ↔
            ∀ e ∈ before, callee ∉ e.targets.names)) ∧
          ((∃ c ∈ callee.toList, Text.isAsciiUpper c = true ∧ c ≠ 'L') →
            ∀ e ∈ cs, callee ∉ e.targets.names) := by
  rw [script_eq] at h
  obtain ⟨cs, hcs, rfl⟩ := ok_of_map h
  obtain ⟨⟨log, ends'⟩, -, hcontributions⟩ := ok_of_bind hcs
  have hfresh := isFresh_openWorkflow ht
  have hledger := Ledger.nil hfresh
  have hrun : (emitAll t.nodesInfo (order t.nodesInfo t.graph ends').2.items).run ⟨t.graph, []⟩ =
    (.ok cs, _) := Prod.ext (ok_of_orFault hcontributions) rfl
  refine ⟨cs, hcs, rfl, fun e he => ?_, fun before c after hsplit callee hcallee => ?_⟩
  · obtain ⟨earlier, later, hsplit⟩ := List.append_of_mem he
    exact (succeeds_contributions hfresh hcontributions earlier e later hsplit).targets
  obtain ⟨d₁, d₂, name, rest, htype, hinvokes, hcontinues, hledger₁, hrest⟩ :=
    of_run_emitAll_append hledger hrun hsplit
  obtain rfl := hinvokes.callee callee hcallee
  refine ⟨name, htype, rfl, ?_, fun hne => ?_, fun ⟨capital, hcapital, hupper, hother⟩ e he hmem => ?_⟩
  · rintro ⟨a, ha, hname⟩
    have hsound := Registry.sound_initial hiddenInputs maxEnumValues embeddings
    have hevolves := Registry.evolves_addNodes hsound added
    obtain ⟨id, hbinds⟩ := hadded.binds hsound ha hname
    exact (hsound.of_evolves hevolves).standsFor_classId_iff
      ((Registry.covered_initial hiddenInputs maxEnumValues embeddings).of_evolves hsound hevolves)
      (Registry.listed_addNodes hsound (Registry.listed_initial hiddenInputs maxEnumValues embeddings) added)
      hbinds
  · refine ⟨fun hall e he => hall e (hsplit ▸ List.mem_append_left _ he), fun hbefore => ?_⟩
    have hc : Identifier.classId name ∉ c.targets.names := by
      intro hmem
      rcases hinvokes.names _ hmem with hblank | hgiven | ⟨-, hself, -⟩
      · exact hne hblank
      · obtain ⟨e, he, hxe⟩ := hledger₁.records _ (hcontinues.inputs _ hgiven)
        exact hbefore e he hxe
      · exact hself rfl
    have hnone : ∀ e ∈ before ++ [c], Identifier.classId name ∉ e.targets.names := by
      intro e he
      rcases List.mem_append.mp he with hold | hnew
      · exact hbefore e hold
      · exact List.mem_singleton.mp hnew ▸ hc
    -- once it is declared, the callee is a name in use
    have hafter := not_chosen_emitAll (hledger₁.append hcontinues) hrest hinvokes.declared hne hnone
    intro e he
    rw [hsplit, List.append_cons, List.mem_append] at he
    exact he.elim (hnone e) (hafter e)
  · rcases isVariable_emitAll hledger hrun e he _ hmem with hblank | hvariable
    · rw [hblank] at hcapital
      obtain rfl : capital = '_' := by simpa using hcapital
      cases hupper
    · exact hother (hvariable.eq_of_mem hcapital hupper)

def plainType (name : String) : Value :=
  .dict [("input", .dict [("required", .dict [("image", .list [.str "IMAGE"])])]),
    ("output", .list [.str "IMAGE"]), ("output_name", .list [.str "IMAGE"]), ("name", .str name),
    ("display_name", .str name), ("description", .str ""), ("category", .str "image"),
    ("output_node", .bool false)]

def alikeTypes : Value := .dict [("Foo", plainType "Foo"), ("foo", plainType "foo")]

def alikeNodes : Value :=
  let node (id : Int) (type : String) (inputs outputs : List Value) : Value :=
    .dict [("id", .int id), ("type", .str type), ("pos", .list [.int id, .int 0]),
      ("mode", .int 0), ("inputs", .list inputs), ("outputs", .list outputs)]
  let image (rest : List (String × Value)) : Value :=
    .dict (("name", .str "image") :: ("type", .str "IMAGE") :: rest)
  .dict [
    ("nodes", .list [node 1 "Foo" [] [image [("links", .list [.int 1]), ("slot_index", .int 0)]],
      node 2 "foo" [image [("link", .int 1)]] []]),
    ("links", .list [.list [.int 1, .int 1, .int 0, .int 2, .int 0, .str "IMAGE"]]),
    ("version", version)]

def alikeAdded : List Registry.Adding :=
  [⟨.none, fun _ => .ok none, plainType "Foo"⟩, ⟨.none, fun _ => .ok none, plainType "foo"⟩]

def alikeRegistry : Registry := (Registry.initial false 100 none).addNodes alikeAdded

def callView (t : Transpiler) (c : Contribution) : Option String × Option String × List String :=
  ((t.graph.typeName c.node).toOption, c.callee?, c.targets.names)

/-- The two nodes are called by one identifier, which stands for the node of the first type. No
variable hides it. -/
theorem callees_stand_for_nodes_alikeNodes :
    (Registry.initial false 100 none).AddsAll alikeAdded ∧
    ∃ t cs, (openWorkflow alikeNodes alikeTypes).2 = .ok t ∧ t.contributionsFor .null = .ok cs ∧
      cs.map t.callView = [(some "Foo", some "Foo", ["image"]), (some "foo", some "Foo", [])] ∧
      alikeRegistry.StandsFor "Foo" "Foo" ∧ ¬ alikeRegistry.StandsFor "Foo" "foo" ∧
      alikeRegistry.StandsFor "Foo_" "foo" ∧
      ∀ e ∈ cs, "Foo" ∉ e.targets.names := by
  have hadded : (Registry.initial false 100 none).AddsAll alikeAdded :=
    ⟨toOption_eq_some_iff.mp (by decide +kernel), toOption_eq_some_iff.mp (by decide +kernel), trivial⟩
  have hview : (((openWorkflow alikeNodes alikeTypes).2.toOption.bind fun t =>
      (t.contributionsFor .null).toOption.map fun cs => cs.map t.callView)) =
      some [(some "Foo", some "Foo", ["image"]), (some "foo", some "Foo", [])] := by
    decide +kernel
  obtain ⟨t, ht, hview⟩ := Option.bind_eq_some_iff.mp hview
  obtain ⟨cs, hcs, hview⟩ := Option.map_eq_some_iff.mp hview
  rw [toOption_eq_some_iff] at ht hcs
  have hscript : (t.script .null false).1.script = .ok (textOf false cs) := by
    rw [script_eq, hcs]
    rfl
  obtain ⟨cs', hcs', -, -, hcallees⟩ := callees_stand_for_nodes hadded ht hscript
  obtain rfl := Except.ok.inj (hcs.symm.trans hcs')
  obtain ⟨first, rest, rfl, hfirst, hrest⟩ := List.map_eq_cons_iff.mp hview
  obtain ⟨second, rest, rfl, hsecond, hnil⟩ := List.map_eq_cons_iff.mp hrest
  obtain rfl := List.map_eq_nil_iff.mp hnil
  simp only [callView, Prod.mk.injEq] at hfirst hsecond
  obtain ⟨htype₁, hcall₁, -⟩ := hfirst
  obtain ⟨htype₂, hcall₂, -⟩ := hsecond
  rw [toOption_eq_some_iff] at htype₁ htype₂
  obtain ⟨name₁, hname₁, -, hstands₁, -, hcapital⟩ := hcallees [] first [second] rfl "Foo" hcall₁
  obtain ⟨name₂, hname₂, -, hstands₂, -⟩ := hcallees [first] second [] rfl "Foo" hcall₂
  obtain rfl := Except.ok.inj (htype₁.symm.trans hname₁)
  obtain rfl := Except.ok.inj (htype₂.symm.trans hname₂)
  refine ⟨hadded, t, _, ht, hcs, hview, ?_, ?_, by decide +kernel, hcapital ⟨'F', by decide, by decide⟩⟩
  · have hbinds : alikeRegistry.Binds "Foo" "Foo" := by decide +kernel
    refine (hstands₁ ⟨_, List.mem_cons_self, rfl⟩).mpr
      ⟨by decide +kernel, by decide +kernel, fun raw hraw => ?_⟩
    exact hraw.unique hbinds
  · intro hstands
    have hsole := ((hstands₂ ⟨_, List.mem_cons_of_mem _ List.mem_cons_self, rfl⟩).mp hstands).2.2
    have hbinds : alikeRegistry.Binds "Foo" "Foo" := by decide +kernel
    exact absurd (hsole "Foo" hbinds) (by decide)

end Transpiler

end Flowscript.Workflow
