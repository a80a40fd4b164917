import Flowscript.Proofs.Workflow.Holding
import Flowscript.Proofs.Workflow.Traversal

/-!
# End nodes

The visit of a graph starts from the given end nodes, or from the vertices where no link starts, in
the order of their distances.
-/

namespace Flowscript.Workflow

open List

variable {nodesInfo : Value} {g : Graph} {ends : Option Value}

theorem map_snd_of_keyAll {vs : List Vertex} {keyed : List (Value × Value)}
    (h : (keyAll vs).2 = .ok keyed) : keyed.map Prod.snd = vs.map Vertex.id := by
  induction vs generalizing keyed with
  | nil =>
    cases h
    rfl
  | cons v rest ih =>
    unfold keyAll at h
    split at h
    · cases h
    · obtain ⟨keyed', hkeyed, rfl⟩ := ok_of_map h
      rw [map_cons, map_cons, ih hkeyed]

theorem perm_of_endNodes {ids : List Value} (h : (endNodes g).2 = .ok ids) :
    ids.Perm (g.sinks.map Vertex.id) := by
  obtain ⟨keyed, hkeyed, h⟩ := ok_of_bind h
  obtain ⟨sorted, hsorted, h⟩ := ok_of_bind h
  obtain rfl := Except.ok.inj h
  rw [← map_snd_of_keyAll hkeyed]
  exact (perm_of_sortByKey hsorted).map Prod.snd

theorem keyAll_ok {vs : List Vertex} (h : ∀ v ∈ vs, ∃ k, keyOf v = .ok k ∧ k.number?.isSome) :
    ∃ keyed, (keyAll vs).2 = .ok keyed ∧ ∀ item ∈ keyed, item.1.number?.isSome := by
  induction vs with
  | nil => exact ⟨[], rfl, fun item hitem => absurd hitem not_mem_nil⟩
  | cons v rest ih =>
    obtain ⟨k, hk, hnumber⟩ := h v mem_cons_self
    obtain ⟨keyed, hkeyed, hkeys⟩ := ih fun w hw => h w (mem_cons_of_mem _ hw)
    refine ⟨(k, v.id) :: keyed, ?_, fun item hitem => ?_⟩
    · rw [keyAll, hk]
      simp only [hkeyed]
      rfl
    · rcases mem_cons.mp hitem with rfl | hrest
      · exact hnumber
      · exact hkeys item hrest

theorem mem_edges_of_endOf {link : Value} {e : Edge} (h : g.endOf link = .ok e) : e ∈ g.edges := by
  obtain ⟨l, -, hedge⟩ := ok_of_bind h
  unfold Graph.edge at hedge
  split at hedge
  next e' hfind => exact Except.ok.inj hedge ▸ mem_of_find?_eq_some hfind
  · cases hedge

theorem endNodes_ok (h : ∀ v ∈ g.sinks, ∃ k, keyOf v = .ok k ∧ k.number?.isSome) :
    ∃ ids, (endNodes g).2 = .ok ids := by
  obtain ⟨keyed, hkeyed, hnumbers⟩ := keyAll_ok h
  obtain ⟨sorted, hsorted⟩ := sortByKey_ok hnumbers
  refine ⟨sorted.map Prod.snd, ?_⟩
  unfold endNodes
  simp only [hkeyed, ok_bind, hsorted]

def endsOf (g : Graph) : Option Value → Except Fault (List Value)
  | none => (endNodes g).2
  | some ends => ends.iterate

theorem order_of_endsOf {ids : List Value} (h : endsOf g ends = .ok ids) :
    (order nodesInfo g ends).2 =
      ⟨(walkFrom nodesInfo g ids).order, (walkFrom nodesInfo g ids).fault⟩ := by
  unfold order
  cases ends with
  | none =>
    change (endNodes g).2 = .ok ids at h
    simp only [h]
  | some ends =>
    change ends.iterate = .ok ids at h
    simp only [h]

theorem order_of_endsOf_error {e : Fault} (h : endsOf g ends = .error e) :
    (order nodesInfo g ends).2 = ⟨[], some e⟩ := by
  unfold order
  cases ends with
  | none =>
    change (endNodes g).2 = .error e at h
    simp only [h]
  | some ends =>
    change ends.iterate = .error e at h
    simp only [h]

end Flowscript.Workflow
