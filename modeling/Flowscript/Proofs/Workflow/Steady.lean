import Flowscript.Workflow.Document
import Flowscript.Proofs.Workflow.Graph
import Flowscript.Proofs.Workflow.Likeness
import Flowscript.Proofs.Workflow.Traversal

/-!
# Graphs whose script can be repeated

A script puts the inputs and outputs of nodes in order and gives variables to outputs. A graph is
steady if that changes nothing that a second script asks first: its linked inputs stand in order, so
that links lead to the same vertices in the same order, and no node reads an output of one that comes
later, which has a variable only the second time.
-/

namespace Flowscript.Workflow

open List Option

theorem items_order (nodesInfo : Value) (g : Graph) (ends : Option Value) :
    (order nodesInfo g ends).2.items = [] ∨
      ∃ found, (order nodesInfo g ends).2.items = (walkFrom nodesInfo g found).order := by
  unfold order
  dsimp only
  split
  · exact .inl rfl
  next found _ => exact .inr ⟨found, rfl⟩

theorem tidy_walkFrom (nodesInfo : Value) (g : Graph) (ends : List Value) :
    (walkFrom nodesInfo g ends).Tidy := by
  suffices h : ∀ walk : Walk, walk.Tidy →
      (ends.foldl (visit (sources nodesInfo g) (g.vertices.length + 2)) walk).Tidy from
    h _ ⟨fun x hx => absurd hx not_mem_nil, nodup_nil⟩
  induction ends with
  | nil => exact fun walk h => h
  | cons id rest ih => exact fun walk h => ih _ (h.visit _ id).1

theorem readable_order (nodesInfo : Value) (g : Graph) (ends : Option Value) :
    ∀ id ∈ (order nodesInfo g ends).2.items, (sources nodesInfo g id).fault = none := by
  rcases items_order nodesInfo g ends with hnil | ⟨found, hwalk⟩
  · rw [hnil]
    exact fun id hid => absurd hid not_mem_nil
  · rw [hwalk]
    suffices h : ∀ walk : Walk, walk.Readable (sources nodesInfo g) →
        (found.foldl (visit (sources nodesInfo g) (g.vertices.length + 2)) walk).Readable
          (sources nodesInfo g) from h _ fun id hid => absurd hid not_mem_nil
    clear hwalk
    induction found with
    | nil => exact fun walk h => h
    | cons id rest ih => exact fun walk h => ih _ (h.visit _ id)

theorem nodup_order {nodesInfo : Value} {g : Graph} {ends : Option Value}
    (h : ∀ id ∈ (order nodesInfo g ends).2.items, id.IsId) : (order nodesInfo g ends).2.items.Nodup := by
  rcases items_order nodesInfo g ends with hnil | ⟨found, hwalk⟩
  · rw [hnil]
    exact nodup_nil
  · rw [hwalk] at h ⊢
    have hself : (walkFrom nodesInfo g found).order.filter (fun x => x == x) =
        (walkFrom nodesInfo g found).order :=
      filter_eq_self.mpr fun x hx => ((h x hx).beq_iff (h x hx)).mpr rfl
    exact hself ▸ (tidy_walkFrom nodesInfo g found).nodup

namespace Graph

variable {g g' : Graph} {id : Value}

/-- The ids of the vertices are numbers or texts, and different ones. -/
structure Distinct (g : Graph) : Prop where
  ids : ∀ x ∈ g.vertices, x.id.IsId
  nodup : (g.vertices.map Vertex.id).Nodup

theorem map_id_modifyVertex (g : Graph) (id : Value) {f : Vertex → Vertex} (hf : ∀ x, (f x).id = x.id) :
    (g.modifyVertex id f).vertices.map Vertex.id = g.vertices.map Vertex.id := by
  rw [modifyVertex, List.map_map]
  refine List.map_congr_left fun x _ => ?_
  by_cases hx : (x.id == id) = true
  · simp [hx, hf]
  · simp [hx]

namespace Distinct

theorem apply (h : g.Distinct) (id : Value) (m : Mark) : (g.modifyVertex id m.apply).Distinct := by
  have hids := map_id_modifyVertex g id m.id_apply
  refine ⟨fun x hx => ?_, hids ▸ h.nodup⟩
  obtain ⟨y, hy, hxy⟩ := mem_map.mp (hids ▸ mem_map_of_mem hx)
  exact hxy ▸ h.ids y hy

theorem vertex?_eq_some_iff (h : g.Distinct) (hid : id.IsId) {x : Vertex} :
    g.vertex? id = some x ↔ x ∈ g.vertices ∧ x.id = id := by
  constructor
  · intro hx
    have hmem := mem_of_find?_eq_some hx
    have heq : (x.id == id) = true := find?_some (p := fun x : Vertex => x.id == id) hx
    exact ⟨hmem, ((h.ids x hmem).beq_iff hid).mp heq⟩
  · rintro ⟨hmem, rfl⟩
    refine find?_eq_some_of_key (f := Vertex.id) h.nodup hmem ((hid.beq_iff hid).mpr rfl) fun y hy heq => ?_
    exact ((h.ids y hy).beq_iff hid).mp heq

theorem vertex?_apply_of_ne (h : g.Distinct) (hid : id.IsId) (m : Mark) {other : Value}
    (hne : ∀ x, g.vertex? other = some x → x.id ≠ id) :
    (g.modifyVertex id m.apply).vertex? other = g.vertex? other := by
  rw [vertex?_modifyVertex g id other m.id_apply]
  cases hx : g.vertex? other with
  | none => rfl
  | some x =>
    have hmem := mem_of_find?_eq_some hx
    have hnot : ¬ (x.id == id) = true := fun heq => hne x hx (((h.ids x hmem).beq_iff hid).mp heq)
    rw [map_some, if_neg hnot]

end Distinct

/-! Every vertex of a document gets an id of its own. -/

def Apart (g : Graph) : Prop := (g.vertices.map Vertex.id).Pairwise fun a b => (a == b) = false

theorem apart_ofDocument {document : Value} (h : ofDocument document = .ok g) : g.Apart := by
  refine vertices_ofDocument
    (P := fun vertices => (vertices.map Vertex.id).Pairwise fun a b => (a == b) = false)
    .nil (fun g id hnone hg => ?_) (fun g id node hg => ?_) h
  · rw [map_append]
    refine pairwise_append.mpr ⟨hg, pairwise_singleton _ _, fun a ha b hb => ?_⟩
    obtain ⟨x, hx, rfl⟩ := mem_map.mp ha
    rw [map_singleton, mem_singleton] at hb
    rw [hb]
    simpa using find?_eq_none.mp hnone x hx
  · rwa [map_id_modifyVertex g id (f := fun x => { x with node := some node }) fun _ => rfl]

theorem Apart.distinct (h : g.Apart) (hids : ∀ x ∈ g.vertices, x.id.IsId) : g.Distinct := by
  refine ⟨hids, h.imp_of_mem fun {a b} ha _ hne heq => ?_⟩
  obtain ⟨x, hx, rfl⟩ := mem_map.mp ha
  rw [← heq, ((hids x hx).beq_iff (hids x hx)).mpr rfl] at hne
  cases hne

end Graph

namespace Graph

def inputsAt (g : Graph) (id : Value) : List Value := ((g.nodeOf id).toOption.map inputsOf).getD []

def outputsAt (g : Graph) (id : Value) : List Value := ((g.nodeOf id).toOption.map outputsOf).getD []

def sourceVertex? (g : Graph) (input : Value) : Option Vertex := do
  let link ← linkNumber? input
  let e ← (g.endOf link).toOption
  g.vertex? e.source

def readsAt (g : Graph) (id : Value) : List Value :=
  (g.inputsAt id).filterMap fun input => (g.sourceVertex? input).map Vertex.id

def inputPlace? (g : Graph) (input : Value) : Option Int :=
  match placeOfInput g input with
  | .ok (.int n) => some n
  | _ => none

def hasWholeSlot (output : Value) : Bool :=
  match output.field? "slot_index" with
  | none | some (.int _) => true
  | _ => false

/-- A graph and an order of statements that can be repeated: ids are numbers or texts and slots are
whole numbers, the linked inputs of each node stand in the order in which they are sorted, and no
node reads an output of itself or of a node that comes after it. -/
structure Steady (g : Graph) (ids : List Value) : Prop where
  named : ∀ x ∈ g.vertices, x.id.IsId
  visited : ∀ id ∈ ids, id.IsId
  places : ∀ id ∈ ids, ∀ input ∈ g.inputsAt id, (g.inputPlace? input).isSome = true
  inputs : ∀ id ∈ ids, (linkedInputs (g.inputsAt id)).Pairwise fun a b =>
    ∀ m ∈ g.inputPlace? a, ∀ n ∈ g.inputPlace? b, m ≤ n
  outputs : ∀ id ∈ ids, ∀ o ∈ g.outputsAt id, hasWholeSlot o = true
  reads : ∀ id ∈ ids, ∀ u ∈ g.readsAt id, (u == id) = false
  later : ids.Pairwise fun id later => ∀ u ∈ g.readsAt id, (u == later) = false

instance (g : Graph) (ids : List Value) : Decidable (g.Steady ids) :=
  decidable_of_iff
    ((∀ x ∈ g.vertices, x.id.IsId) ∧ (∀ id ∈ ids, id.IsId) ∧
      (∀ id ∈ ids, ∀ input ∈ g.inputsAt id, (g.inputPlace? input).isSome = true) ∧
      (∀ id ∈ ids, (linkedInputs (g.inputsAt id)).Pairwise fun a b =>
        ∀ m ∈ g.inputPlace? a, ∀ n ∈ g.inputPlace? b, m ≤ n) ∧
      (∀ id ∈ ids, ∀ o ∈ g.outputsAt id, hasWholeSlot o = true) ∧
      (∀ id ∈ ids, ∀ u ∈ g.readsAt id, (u == id) = false) ∧
      ids.Pairwise fun id later => ∀ u ∈ g.readsAt id, (u == later) = false)
    ⟨fun ⟨named, visited, places, inputs, outputs, reads, later⟩ =>
      ⟨named, visited, places, inputs, outputs, reads, later⟩,
      fun h => ⟨h.named, h.visited, h.places, h.inputs, h.outputs, h.reads, h.later⟩⟩

variable {g : Graph} {id : Value}

theorem nodeOf_eq_ok_iff {node : Value} : g.nodeOf id = .ok node ↔
    id.hashable = true ∧ ∃ x, g.vertex? id = some x ∧ x.node = some node := by
  unfold nodeOf
  cases id.hashable with
  | false => simp
  | true =>
    cases hx : g.vertex? id with
    | none => simp
    | some x => cases hnode : x.node <;> simp [hnode]

theorem sourceVertex?_eq_some_iff {input : Value} {x : Vertex} : g.sourceVertex? input = some x ↔
    ∃ link e, linkNumber? input = some link ∧ g.endOf link = .ok e ∧ g.vertex? e.source = some x := by
  simp [sourceVertex?, bind_eq_some_iff, toOption_eq_some_iff]

theorem placeOfOutput_of_hasWholeSlot {o : Value} (h : hasWholeSlot o = true) :
    ∃ n, placeOfOutput o = .int n := by
  unfold hasWholeSlot at h
  unfold placeOfOutput
  split at h
  next hnone =>
    rw [hnone]
    exact ⟨_, rfl⟩
  next n hsome =>
    rw [hsome]
    exact ⟨n, rfl⟩
  · cases h

theorem slotOf_of_hasWholeSlot {o : Value} (h : hasWholeSlot o = true) (single : Bool) (i : Nat) :
    ∃ n, slotOf o single i = .int n := by
  unfold hasWholeSlot at h
  unfold slotOf
  split at h
  next hnone =>
    rw [hnone]
    cases single
    · exact ⟨i, rfl⟩
    · exact ⟨0, rfl⟩
  next n hsome =>
    rw [hsome]
    exact ⟨n, rfl⟩
  · cases h

theorem Steady.apply {rest : List Value} (h : g.Steady (id :: rest)) (hg : g.Distinct)
    (hnew : id ∉ rest) (m : Mark) : (g.modifyVertex id m.apply).Steady rest := by
  have hid := h.visited id mem_cons_self
  have hnode {other : Value} (hother : other ∈ rest) :
      (g.modifyVertex id m.apply).nodeOf other = g.nodeOf other := by
    have hvertex : (g.modifyVertex id m.apply).vertex? other = g.vertex? other := by
      refine hg.vertex?_apply_of_ne hid m fun x hx hxid => ?_
      have hother' := h.visited other (mem_cons_of_mem _ hother)
      exact hnew (hxid ▸ ((hg.vertex?_eq_some_iff hother').mp hx).2 ▸ hother)
    unfold nodeOf
    rw [hvertex]
  have hinputs {other : Value} (hother : other ∈ rest) :
      (g.modifyVertex id m.apply).inputsAt other = g.inputsAt other := by
    unfold inputsAt
    rw [hnode hother]
  -- a mark does not change ids
  have hsource (input : Value) : ((g.modifyVertex id m.apply).sourceVertex? input).map Vertex.id =
      (g.sourceVertex? input).map Vertex.id := by
    unfold sourceVertex?
    cases linkNumber? input with
    | none => rfl
    | some link =>
      change (((g.endOf link).toOption.bind fun e => (g.modifyVertex id m.apply).vertex? e.source).map _) =
        (((g.endOf link).toOption.bind fun e => g.vertex? e.source).map _)
      cases (g.endOf link).toOption with
      | none => rfl
      | some e =>
        simp only [bind_some]
        rw [vertex?_modifyVertex g id e.source m.id_apply, Option.map_map]
        cases g.vertex? e.source with
        | none => rfl
        | some x =>
          simp only [map_some, Function.comp_apply]
          split <;> rfl
  have hreads {other : Value} (hother : other ∈ rest) :
      (g.modifyVertex id m.apply).readsAt other = g.readsAt other := by
    unfold readsAt
    rw [hinputs hother]
    simp only [hsource]
  refine ⟨(hg.apply id m).ids, fun other hother => h.visited other (mem_cons_of_mem _ hother),
    fun other hother => ?_, fun other hother => ?_, fun other hother => ?_, fun other hother => ?_, ?_⟩
  · rw [hinputs hother]
    exact h.places other (mem_cons_of_mem _ hother)
  · rw [hinputs hother]
    exact h.inputs other (mem_cons_of_mem _ hother)
  · unfold outputsAt
    rw [hnode hother]
    exact h.outputs other (mem_cons_of_mem _ hother)
  · rw [hreads hother]
    exact h.reads other (mem_cons_of_mem _ hother)
  · refine (pairwise_cons.mp h.later).2.imp_of_mem fun {a b} ha _ hlater => ?_
    rw [hreads ha]
    exact hlater

end Graph

end Flowscript.Workflow
