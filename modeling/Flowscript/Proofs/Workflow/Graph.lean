import Flowscript.Workflow.Graph
import Flowscript.Proofs.Runs
import Flowscript.Proofs.Table

/-!
# Graphs of documents

Where the nodes of a document have different ids, and its links have different numbers and lead
from nodes to nodes, the graph has a vertex for each node and an edge for each link, in the order of
the document.
-/

namespace Flowscript

open List

namespace Value

def IsId : Value → Prop
  | .int _ | .str _ => True
  | _ => False

instance (v : Value) : Decidable v.IsId :=
  match v with
  | .int _ | .str _ => isTrue trivial
  | .null | .bool _ | .float _ | .list _ | .tuple _ | .dict _ | .record _ | .path _ | .classRef ..
  | .member .. | .image .. | .output .. | .wrapped .. | .task .. | .result .. | .workflow _ | .node _
  | .object _ => isFalse id

theorem IsId.beq_iff {v w : Value} (hv : v.IsId) (hw : w.IsId) : (v == w) = true ↔ v = w := by
  cases v with
  | int m =>
    cases w with
    | int n => simp [BEq.beq, same, sameLeaf, number?, sameNumber]
    | str s => simp [BEq.beq, same, sameLeaf, number?, text?]
    | _ => cases hw
  | str s =>
    cases w with
    | int n => simp [BEq.beq, same, sameLeaf, number?, text?]
    | str t => simp
    | _ => cases hw
  | _ => cases hv

theorem IsId.hashable {v : Value} (h : v.IsId) : v.hashable = true := by
  cases v with
  | int _ => rfl
  | str _ => rfl
  | _ => cases h

theorem itemsAsRecords_eq_map (items : List Value) : itemsAsRecords items = items.map asRecords := by
  induction items with
  | nil => rfl
  | cons v rest ih => rw [itemsAsRecords, ih, map_cons]

end Value

namespace Workflow

def Edge.row (e : Edge) : Value :=
  .list [e.key, e.source, e.sourceSlot, e.target, e.targetSlot, e.type]

def Edge.link (e : Edge) : Link := ⟨e.key, e.source, e.target, e.key⟩

theorem find?_eq_some_of_key {α κ : Type} {f : α → κ} {p : α → Bool} {items : List α} {a : α}
    (hnodup : (items.map f).Nodup) (ha : a ∈ items) (hp : p a = true)
    (hkey : ∀ b ∈ items, p b = true → f b = f a) : items.find? p = some a := by
  cases hfind : items.find? p with
  | none => exact absurd hp (find?_eq_none.mp hfind a ha)
  | some b =>
    have hb := mem_of_find?_eq_some hfind
    rw [inj_on_of_nodup_map hnodup hb ha (hkey b hb (find?_some hfind))]

namespace Graph

def vertexOf (node : Value × Value) : Vertex := ⟨node.1, some node.2, none⟩

section Nodes

variable {nodes : List (Value × Value)}

theorem vertex?_of_not_mem {id : Value} (hid : id.IsId) (hids : ∀ n ∈ nodes, n.1.IsId)
    (hnew : id ∉ nodes.map Prod.fst) {edges : List Edge} {links : List Link} :
    vertex? ⟨nodes.map vertexOf, edges, links⟩ id = none := by
  unfold vertex?
  rw [find?_eq_none]
  intro v hv heq
  obtain ⟨n, hn, rfl⟩ := mem_map.mp hv
  exact hnew (((hids n hn).beq_iff hid).mp heq ▸ mem_map_of_mem hn)

theorem vertex?_of_mem {n : Value × Value} (hids : ∀ n ∈ nodes, n.1.IsId)
    (hnodup : (nodes.map Prod.fst).Nodup) (hn : n ∈ nodes) {edges : List Edge} {links : List Link} :
    vertex? ⟨nodes.map vertexOf, edges, links⟩ n.1 = some (vertexOf n) := by
  have hkeys : (nodes.map vertexOf).map Vertex.id = nodes.map Prod.fst := by
    rw [map_map]
    rfl
  refine find?_eq_some_of_key (f := Vertex.id) (hkeys ▸ hnodup) (mem_map_of_mem hn)
    (((hids n hn).beq_iff (hids n hn)).mpr rfl) fun v hv heq => ?_
  obtain ⟨m, hm, rfl⟩ := mem_map.mp hv
  exact ((hids m hm).beq_iff (hids n hn)).mp heq

theorem addNode_eq {node : Value × Value} (hfield : node.2.field "id" = .ok node.1)
    (hid : node.1.IsId) (hids : ∀ n ∈ nodes, n.1.IsId) (hnew : node.1 ∉ nodes.map Prod.fst) :
    addNode ⟨nodes.map vertexOf, [], []⟩ node.2 = .ok ⟨(nodes ++ [node]).map vertexOf, [], []⟩ := by
  obtain ⟨id, node⟩ := node
  have hhas : hasVertex ⟨nodes.map vertexOf, [], []⟩ id = .ok false := by
    simp [hasVertex, hid.hashable, vertex?_of_not_mem hid hids hnew]
  have hadd : addVertex ⟨nodes.map vertexOf, [], []⟩ id =
      .ok ⟨nodes.map vertexOf ++ [⟨id, none, none⟩], [], []⟩ := by
    unfold addVertex
    rw [hhas, ok_bind]
    cases id with
    | int n => rfl
    | str s => rfl
    | _ => cases hid
  unfold addNode
  simp only [hfield, hadd, ok_bind, modifyVertex]
  refine congrArg (fun vertices => Except.ok (⟨vertices, [], []⟩ : Graph)) ?_
  rw [map_append, map_append, map_singleton]
  congr 1
  · rw [map_map]
    refine map_congr_left fun n hn => if_neg fun heq => hnew ?_
    exact ((hids n hn).beq_iff hid).mp heq ▸ mem_map_of_mem hn
  · rw [map_singleton, if_pos ((hid.beq_iff hid).mpr rfl)]
    rfl

end Nodes

section Links

variable {nodes : List (Value × Value)} {edges : List Edge} {e : Edge}

theorem addVertex_of_mem (hids : ∀ n ∈ nodes, n.1.IsId) (hnodup : (nodes.map Prod.fst).Nodup)
    {id : Value} (hid : id ∈ nodes.map Prod.fst) {links : List Link} :
    addVertex ⟨nodes.map vertexOf, edges, links⟩ id = .ok ⟨nodes.map vertexOf, edges, links⟩ := by
  obtain ⟨n, hn, rfl⟩ := mem_map.mp hid
  have hhas : hasVertex ⟨nodes.map vertexOf, edges, links⟩ n.1 = .ok true := by
    simp [hasVertex, (hids n hn).hashable, vertex?_of_mem hids hnodup hn]
  unfold addVertex
  rw [hhas, ok_bind]
  rfl

theorem putEdge_eq (hne : ∀ f ∈ edges, (f.key == e.key) = false) : putEdge e edges = edges ++ [e] := by
  induction edges with
  | nil => rfl
  | cons f rest ih =>
    obtain ⟨hf, hrest⟩ := forall_mem_cons.mp hne
    rw [putEdge, hf, Bool.and_false, if_neg Bool.false_ne_true, ih hrest]
    rfl

theorem putLink_eq (hne : ∀ f ∈ edges, (f.key == e.key) = false) :
    putLink e.link (edges.map Edge.link) = (edges ++ [e]).map Edge.link := by
  induction edges with
  | nil => rfl
  | cons f rest ih =>
    obtain ⟨hf, hrest⟩ := forall_mem_cons.mp hne
    rw [map_cons, putLink, show (f.link.id == e.link.id) = false from hf, if_neg Bool.false_ne_true,
      ih hrest]
    rfl

theorem addLink_eq (hids : ∀ n ∈ nodes, n.1.IsId) (hnodup : (nodes.map Prod.fst).Nodup)
    (hsource : e.source ∈ nodes.map Prod.fst) (htarget : e.target ∈ nodes.map Prod.fst)
    (hkey : e.key.IsId) (hkeys : ∀ f ∈ edges, f.key.IsId) (hnew : e.key ∉ edges.map Edge.key) :
    addLink ⟨nodes.map vertexOf, edges, edges.map Edge.link⟩ e.row =
      .ok ⟨nodes.map vertexOf, edges ++ [e], (edges ++ [e]).map Edge.link⟩ := by
  have hrow : e.row.iterate =
    .ok [e.key, e.source, e.sourceSlot, e.target, e.targetSlot, e.type] := rfl
  have hedgeKey (g : Graph) : g.edgeKey e.source e.target e.key = e.key := by
    generalize e.key = key at hkey
    cases key with
    | int n => rfl
    | str s => rfl
    | _ => cases hkey
  have hne (f : Edge) (hf : f ∈ edges) : (f.key == e.key) = false := by
    rw [Bool.eq_false_iff, ne_eq, (hkeys f hf).beq_iff hkey]
    exact fun heq => hnew (heq ▸ mem_map_of_mem hf)
  unfold addLink
  rw [hrow, ok_bind]
  simp only [addVertex_of_mem hids hnodup hsource, addVertex_of_mem hids hnodup htarget, ok_bind,
    hkey.hashable, Bool.not_true, Bool.false_eq_true, if_false, hedgeKey]
  rw [← putLink_eq hne, ← putEdge_eq hne]
  rfl

end Links

theorem ofDocument_eq {document : Value} {nodes : List (Value × Value)} {edges : List Edge}
    (hnodes : document.field "nodes" = .ok (.list (nodes.map Prod.snd)))
    (hfields : ∀ n ∈ nodes, n.2.field "id" = .ok n.1) (hids : ∀ n ∈ nodes, n.1.IsId)
    (hnodup : (nodes.map Prod.fst).Nodup)
    (hlinks : document.field "links" = .ok (.list (edges.map Edge.row)))
    (hkeys : ∀ e ∈ edges, e.key.IsId) (hkeysNodup : (edges.map Edge.key).Nodup)
    (hends : ∀ e ∈ edges, e.source ∈ nodes.map Prod.fst ∧ e.target ∈ nodes.map Prod.fst) :
    ofDocument document = .ok ⟨nodes.map vertexOf, edges, edges.map Edge.link⟩ := by
  have hnew {α β : Type} {f : α → β} {items done rest : List α} {a : α}
      (hnodup : (items.map f).Nodup) (hsplit : items = done ++ a :: rest) : f a ∉ done.map f := by
    rw [hsplit, map_append, map_cons] at hnodup
    exact fun hmem => (nodup_append.mp hnodup).2.2 _ hmem _ mem_cons_self rfl
  obtain ⟨g₁, hg₁, rfl⟩ := foldlM_ok (fun done g => g = ⟨done.map vertexOf, [], []⟩)
    (f := fun g (n : Value × Value) => addNode g n.2) nodes
    (fun done n rest g hsplit hg => by
      subst hg
      exact ⟨_, addNode_eq (hfields n (hsplit ▸ by simp)) (hids n (hsplit ▸ by simp))
        (fun m hm => hids m (hsplit ▸ mem_append_left _ hm)) (hnew hnodup hsplit), rfl⟩)
    (b := empty) rfl
  obtain ⟨g₂, hg₂, rfl⟩ := foldlM_ok
    (fun done g => g = ⟨nodes.map vertexOf, done, done.map Edge.link⟩)
    (f := fun g (e : Edge) => addLink g e.row) edges
    (fun done e rest g hsplit hg => by
      subst hg
      obtain ⟨hsource, htarget⟩ := hends e (hsplit ▸ by simp)
      exact ⟨_, addLink_eq hids hnodup hsource htarget (hkeys e (hsplit ▸ by simp))
        (fun f hf => hkeys f (hsplit ▸ mem_append_left _ hf)) (hnew hkeysNodup hsplit), rfl⟩)
    (b := ⟨nodes.map vertexOf, [], []⟩) rfl
  have hiterate (items : List Value) : (Value.list items).iterate = .ok items := rfl
  unfold ofDocument
  simp only [hnodes, hlinks, hiterate, ok_bind, foldlM_map, hg₁]
  exact hg₂

/-- What holds of no vertices, and goes on to hold when a vertex with a new id is added or a node is put
at its vertex, holds of the vertices of every document. -/
theorem vertices_ofDocument {P : List Vertex → Prop} (hnil : P [])
    (hadd : ∀ (g : Graph) id, g.vertex? id = none → P g.vertices → P (g.vertices ++ [⟨id, none, none⟩]))
    (hput : ∀ (g : Graph) id node, P g.vertices →
      P (g.modifyVertex id fun x => { x with node := some node }).vertices)
    {document : Value} {g : Graph} (h : ofDocument document = .ok g) : P g.vertices := by
  have hvertex {g g' : Graph} {id : Value} (hg : P g.vertices) (h : g.addVertex id = .ok g') :
      P g'.vertices := by
    unfold addVertex hasVertex at h
    split at h
    · rw [ok_bind] at h
      split at h
      · exact Except.ok.inj h ▸ hg
      next hnot =>
        split at h
        · cases h
        · cases h
          exact hadd g _ (by simpa using hnot) hg
    · cases h
  unfold ofDocument at h
  obtain ⟨_, -, h⟩ := ok_of_bind h
  obtain ⟨nodes, -, h⟩ := ok_of_bind h
  obtain ⟨g₁, hnodes, h⟩ := ok_of_bind h
  obtain ⟨_, -, h⟩ := ok_of_bind h
  obtain ⟨links, -, h⟩ := ok_of_bind h
  refine foldlM_invariant (fun g => P g.vertices) (fun g link _ g' hg h => ?_)
    (foldlM_invariant (fun g => P g.vertices) (fun g node _ g' hg h => ?_) hnil hnodes) h
  · unfold addLink at h
    obtain ⟨items, -, h⟩ := ok_of_bind h
    split at h
    · obtain ⟨g₁, hsource, h⟩ := ok_of_bind h
      obtain ⟨g₂, htarget, h⟩ := ok_of_bind h
      have hg₂ := hvertex (hvertex hg hsource) htarget
      split at h
      · cases h
      · cases h
        exact hg₂
    · cases h
  · unfold addNode at h
    obtain ⟨id, -, h⟩ := ok_of_bind h
    obtain ⟨g₁, hadded, h⟩ := ok_of_bind h
    cases h
    exact hput g₁ id node (hvertex hg hadded)

section Ends

variable {nodes : List (Value × Value)} {edges : List Edge} {e : Edge}
  (hkeys : ∀ e ∈ edges, e.key.IsId) (hnodup : (edges.map Edge.key).Nodup) (he : e ∈ edges)

include hkeys hnodup he

theorem link_of_mem : link ⟨nodes.map vertexOf, edges, edges.map Edge.link⟩ e.key = .ok e.link := by
  have hlinks : (edges.map Edge.link).map Link.id = edges.map Edge.key := by
    rw [map_map]
    rfl
  have hfind : ((edges.map Edge.link).find? fun l => l.id == e.key) = some e.link := by
    refine find?_eq_some_of_key (f := Link.id) (hlinks ▸ hnodup) (mem_map_of_mem he)
      (((hkeys e he).beq_iff (hkeys e he)).mpr rfl) fun l hl heq => ?_
    obtain ⟨f, hf, rfl⟩ := mem_map.mp hl
    exact ((hkeys f hf).beq_iff (hkeys e he)).mp heq
  simp [link, (hkeys e he).hashable, hfind]

theorem endOf_of_mem (hsource : e.source.IsId) (htarget : e.target.IsId) :
    endOf ⟨nodes.map vertexOf, edges, edges.map Edge.link⟩ e.key = .ok e := by
  have hfind : (edges.find? fun f =>
      f.source == e.source && f.target == e.target && f.key == e.key) = some e := by
    refine find?_eq_some_of_key hnodup he ?_ fun f hf heq => ?_
    · simp only [Bool.and_eq_true, hsource.beq_iff hsource, htarget.beq_iff htarget,
        (hkeys e he).beq_iff (hkeys e he), and_self]
    · exact ((hkeys f hf).beq_iff (hkeys e he)).mp (Bool.and_eq_true_iff.mp heq).2
  unfold endOf
  rw [link_of_mem hkeys hnodup he, ok_bind]
  unfold edge
  rw [show e.link.source = e.source from rfl, show e.link.target = e.target from rfl,
    show e.link.key = e.key from rfl, hfind]

end Ends

end Graph

end Workflow

end Flowscript
