import Flowscript.Proofs.Workflow.Effects

/-!
# Graphs that differ in marks alone

The order of statements depends on the linked inputs and the widget values of nodes, on where they
lie and on the links between them. It depends neither on their outputs, nor on the variables of
these, nor on where inputs without links stand. So graphs that differ in nothing else have the same
order, and the same end nodes.
-/

namespace Flowscript.Workflow

open List Option

variable {g : Graph}

structure Alike (v w : Value) : Prop where
  fields : ∀ name, name ∉ ["inputs", "outputs"] → w.field? name = v.field? name
  inputs : (w.field? "inputs").isSome = (v.field? "inputs").isSome

namespace Alike

variable {v w : Value}

theorem refl (v : Value) : Alike v v := ⟨fun _ _ => rfl, rfl⟩

theorem trans {u : Value} (h : Alike u v) (h' : Alike v w) : Alike u w where
  fields name hname := (h'.fields name hname).trans (h.fields name hname)
  inputs := h'.inputs.trans h.inputs

theorem field (h : Alike v w) {name : String} (hname : name ∉ ["inputs", "outputs"]) :
    w.field name = v.field name := by
  unfold Value.field
  rw [h.fields name hname]

theorem widgetArguments (h : Alike v w) (nodesInfo type : Value) :
    widgetArguments nodesInfo w type = Workflow.widgetArguments nodesInfo v type := by
  unfold Workflow.widgetArguments
  rw [h.fields "widgets_values" (by decide)]

theorem choiceOfNode (h : Alike v w) (nodesInfo : Value) :
    choiceOfNode nodesInfo w = Workflow.choiceOfNode nodesInfo v := by
  have hwidgets : widgetsOfNode nodesInfo w = widgetsOfNode nodesInfo v := by
    have hinputs := h.inputs
    unfold widgetsOfNode
    rw [h.fields "widgets_values" (by decide), h.field (by decide)]
    generalize v.field? "inputs" = inputs, w.field? "inputs" = inputs' at hinputs
    cases inputs with
    | none =>
      rw [isSome_none, isSome_eq_false_iff, isNone_iff_eq_none] at hinputs
      rw [hinputs]
    | some _ =>
      obtain ⟨_, rfl⟩ := isSome_iff_exists.mp hinputs
      cases v.field? "widgets_values" <;> rfl
  unfold Workflow.choiceOfNode
  rw [hwidgets, h.field (by decide)]

theorem contribute (h : Alike v w) (nodesInfo id mode type : Value) (callee : String)
    (named : List (String × Argument)) (t : Targets) :
    contribute nodesInfo id w mode type callee named t =
      Workflow.contribute nodesInfo id v mode type callee named t := by
  unfold Workflow.contribute
  rw [h.choiceOfNode]

theorem assignOutput (h : Alike v w) (id : Value) (single : Bool) (t : Targets) (output : Value)
    (position : Nat) :
    assignOutput id w single t output position = Workflow.assignOutput id v single t output position := by
  unfold Workflow.assignOutput chooseVariable otherVariable suggestedName
  rw [h.fields "title" (by decide)]

theorem distance (h : Alike v w) : distance w = Workflow.distance v := by
  unfold Workflow.distance
  rw [h.field (by decide)]

end Alike

def linkedInputs (inputs : List Value) : List Value := inputs.filter fun input => (linkNumber? input).isSome

theorem fault_readEach_iff {α β : Type} {f : α → Except Fault (Option β)} {items : List α} :
    (readEach f items).fault = none ↔ ∀ a ∈ items, ∃ b, f a = .ok b := by
  induction items with
  | nil => simp [readEach]
  | cons a rest ih =>
    unfold readEach
    cases hf : f a with
    | error e => simp [hf]
    | ok b => cases b <;> simp [hf, ih]

theorem readEach_filter {α β : Type} {f : α → Except Fault (Option β)} {items : List α} {p : α → Bool}
    (h : (readEach f items).fault = none) (hp : ∀ a b, p a = false → f a ≠ .ok (some b)) :
    readEach f (items.filter p) = readEach f items := by
  induction items with
  | nil => rfl
  | cons a rest ih =>
    have hall := fault_readEach_iff.mp h
    obtain ⟨b, hb⟩ := hall a mem_cons_self
    have ih := ih (fault_readEach_iff.mpr fun x hx => hall x (mem_cons_of_mem _ hx))
    cases hpa : p a with
    | true => rw [filter_cons_of_pos hpa, readEach, readEach, hb, ih]
    | false =>
      rw [filter_cons_of_neg (by simp [hpa]), ih, readEach, hb]
      cases b with
      | none => rfl
      | some b => exact absurd hb (hp a b hpa)

theorem followedSource_of_not_linked {choice : Option (Multiplexer × String)} {input id : Value}
    (h : (linkNumber? input).isSome = false) : followedSource g choice input ≠ .ok (some id) := by
  intro hfollowed
  obtain ⟨link, l, hlink, -⟩ := of_sourceOf (of_followedSource hfollowed)
  rw [hlink] at h
  cases h

theorem sources_eq_of_linkedInputs {nodesInfo id id' v w : Value} {g' : Graph} (hlinks : g'.links = g.links)
    (hv : g.nodeOf id = .ok v) (hw : g'.nodeOf id' = .ok w) (h : Alike v w) {items items' : List Value}
    (hitems : v.field? "inputs" = some (.list items)) (hitems' : w.field? "inputs" = some (.list items'))
    (hperm : items'.Perm items) (hlinked : linkedInputs items' = linkedInputs items)
    (hread : (sources nodesInfo g id).fault = none) :
    sources nodesInfo g' id' = sources nodesInfo g id := by
  have hfollowed : followedSource g' = followedSource g := by
    unfold followedSource sourceOf Graph.link
    rw [hlinks]
  unfold sources at hread ⊢
  rw [hv, hw, hfollowed]
  rw [hv] at hread
  have hiterate (items : List Value) : (Value.list items).iterate = .ok items := rfl
  simp only [ok_bind, hitems, hitems', h.choiceOfNode, hiterate] at hread ⊢
  cases hchoice : choiceOfNode nodesInfo v with
  | error e => rfl
  | ok choice =>
    rw [hchoice] at hread
    simp only [ok_bind] at hread ⊢
    have hread' : (readEach (followedSource g choice) items').fault = none :=
      fault_readEach_iff.mpr fun a ha => fault_readEach_iff.mp hread a (hperm.subset ha)
    have hnone (input id : Value) (hnot : (linkNumber? input).isSome = false) :
        followedSource g choice input ≠ .ok (some id) := followedSource_of_not_linked hnot
    rw [← readEach_filter hread hnone, ← readEach_filter hread' hnone]
    exact congrArg (readEach _) hlinked

structure Vertex.Alike (x y : Vertex) : Prop where
  id : y.id = x.id
  node : Option.Rel Workflow.Alike x.node y.node

theorem Vertex.Alike.refl (x : Vertex) : x.Alike x := by
  refine ⟨rfl, ?_⟩
  cases x.node with
  | none => exact .none
  | some v => exact .some (.refl v)

theorem Vertex.Alike.trans {x y z : Vertex} (h : x.Alike y) (h' : y.Alike z) : x.Alike z := by
  refine ⟨h'.id.trans h.id, ?_⟩
  obtain ⟨-, h⟩ := h
  obtain ⟨-, h'⟩ := h'
  generalize x.node = u, y.node = v, z.node = w at h h'
  cases h with
  | none =>
    cases h'
    exact .none
  | some h =>
    cases h' with
    | some h' => exact .some (h.trans h')

structure Graph.Alike (g g' : Graph) : Prop where
  vertices : List.Forall₂ Vertex.Alike g.vertices g'.vertices
  edges : g'.edges = g.edges
  links : g'.links = g.links

namespace Graph.Alike

variable {g g' g'' : Graph}

theorem refl (g : Graph) : g.Alike g := ⟨List.forall₂_same.mpr fun x _ => .refl x, rfl, rfl⟩

theorem trans (h : g.Alike g') (h' : g'.Alike g'') : g.Alike g'' := by
  refine ⟨?_, h'.edges.trans h.edges, h'.links.trans h.links⟩
  have hvertices := h.vertices
  have hvertices' := h'.vertices
  generalize g.vertices = xs, g'.vertices = ys, g''.vertices = zs at hvertices hvertices'
  induction hvertices generalizing zs with
  | nil =>
    cases hvertices'
    exact .nil
  | cons hfirst _ ih =>
    cases hvertices' with
    | cons hfirst' hrest' => exact .cons (hfirst.trans hfirst') (ih _ hrest')

theorem vertex? (h : g.Alike g') (id : Value) :
    Option.Rel Vertex.Alike (g.vertex? id) (g'.vertex? id) := by
  have hvertices := h.vertices
  unfold Graph.vertex?
  generalize g.vertices = xs, g'.vertices = ys at hvertices
  induction hvertices with
  | nil => exact .none
  | @cons x y _ _ hfirst _ ih =>
    rw [find?_cons, find?_cons, hfirst.id]
    cases x.id == id with
    | true => exact .some hfirst
    | false => exact ih

theorem link (h : g.Alike g') (id : Value) : g'.link id = g.link id := by
  unfold Graph.link
  rw [h.links]

theorem endOf (h : g.Alike g') (id : Value) : g'.endOf id = g.endOf id := by
  unfold Graph.endOf Graph.edge
  rw [h.link, h.edges]

theorem keyAll_of_alike {xs ys : List Vertex} (h : List.Forall₂ Vertex.Alike xs ys) :
    keyAll ys = keyAll xs := by
  induction h with
  | nil => rfl
  | @cons x y _ _ hfirst _ ih =>
    have hkey : keyOf y = keyOf x ∧ warning? y = warning? x := by
      unfold keyOf warning?
      obtain ⟨hid, hnode⟩ := hfirst
      rw [hid]
      generalize x.node = v, y.node = w at hnode
      cases hnode with
      | none => exact ⟨rfl, rfl⟩
      | some hvw => exact ⟨hvw.distance, rfl⟩
    rw [keyAll, keyAll, ih, hkey.1, hkey.2, hfirst.id]

theorem endNodes (h : g.Alike g') : endNodes g' = Workflow.endNodes g := by
  have hsinks : List.Forall₂ Vertex.Alike g.sinks g'.sinks := by
    unfold Graph.sinks
    rw [h.edges]
    refine rel_filter (fun {x y} hxy => ?_) h.vertices
    dsimp only
    rw [hxy.id]
  unfold Workflow.endNodes
  rw [keyAll_of_alike hsinks]

theorem order (h : g.Alike g') {nodesInfo : Value} (hsources : sources nodesInfo g' = sources nodesInfo g)
    (ends : Option Value) : order nodesInfo g' ends = Workflow.order nodesInfo g ends := by
  have hwalk : walkFrom nodesInfo g' = walkFrom nodesInfo g := by
    funext ends
    rw [walkFrom, walkFrom, hsources, h.vertices.length_eq]
  unfold Workflow.order
  rw [h.endNodes, hwalk]

theorem hasVertex (h : g.Alike g') (id : Value) : g'.hasVertex id = g.hasVertex id := by
  have hvertex := h.vertex? id
  unfold Graph.hasVertex
  generalize g.vertex? id = x, g'.vertex? id = y at hvertex
  cases hvertex <;> rfl

end Graph.Alike

theorem Transpiler.resolveEnds_of_alike {t : Transpiler} (h : t.graph.Alike g) (ends : Value) :
    ({ t with graph := g } : Transpiler).resolveEnds ends = t.resolveEnds ends := by
  unfold resolveEnds
  simp only [h.hasVertex]

end Flowscript.Workflow
