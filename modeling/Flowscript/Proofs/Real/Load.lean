import Flowscript.Proofs.Real.Calls
import Flowscript.Proofs.Registry.Entries

/-!
# Loaded nodes

Loading nodes with all that layers can do puts a layer around each class of a registered node. No
layer is put on a class itself, so that there is none inside another.
-/

namespace Flowscript

def RealM.wrapped (name : String) (entry : NodeEntry) : RealNode :=
  ⟨name, some (.layered .plain (RealM.layerFor .full entry), ⟨name, .plain⟩)⟩

/-- The nodes are those of a registry, each with a layer around its class. -/
structure RealState.Loaded (classes : List (String × NodeClass)) (infos : List Value)
    (registry : Registry) (s : RealState) : Prop where
  classes : s.classes = classes
  registered : Registering.AllFrom infos registry
  nodes : ∀ name n, Table.find? name s.nodes = some n →
    ∃ entry, (name, entry) ∈ registry.nodes ∧ n = RealM.wrapped name entry
  workflow : s.workflow = none

namespace RealM

variable {session : Session Unit} {classes : List (String × NodeClass)} {here : LocalNodes}
  {info : Value} {registry : Registry} {s s' : RealState}

theorem of_run_prepare (hs : s.makers = []) {name : String} {entry : NodeEntry} {n : RealNode}
    (h : (prepare .full name entry).run s = (.ok n, s')) : n = wrapped name entry ∧ s' = s := by
  unfold prepare classOf makerOf at h
  rw [bind_assoc, run_bind_ok (run_get s)] at h
  cases hclass : Table.find? name s.classes with
  | none =>
    rw [hclass] at h
    cases h
  | some c =>
    have hplain : c.lineage.findSome? (Table.find? · s.makers) = none := by
      rw [hs]
      exact List.findSome?_eq_none_iff.mpr fun _ _ => rfl
    rw [hclass] at h
    simp only [pure_bind, RealConfig.full, Bool.not_true, Bool.false_eq_true, if_false, if_true,
      bind_assoc] at h
    rw [run_bind_ok (run_get s), hplain] at h
    cases h
    exact ⟨rfl, rfl⟩

theorem loaded_loadNodes
    (h : (loadNodes .full here info).run (.new session classes) = (.ok registry, s)) :
    ∃ infos, SessionM.valuesOf info = .ok infos ∧ s.Loaded classes infos registry := by
  unfold loadNodes at h
  obtain ⟨_, s₁, hs₁, h⟩ := of_run_bind h
  obtain ⟨r, s₂, hs₂, h⟩ := of_run_bind h
  obtain ⟨_, s₃, hs₃, h⟩ := of_run_bind h
  cases h
  cases hs₁
  obtain ⟨session', hregister, rfl⟩ := of_run_virtual hs₂
  obtain ⟨infos, hinfos, hfrom⟩ := SessionM.of_run_register hregister
  refine ⟨infos, hinfos, ?_⟩
  -- no round puts a layer on a class itself
  have hloop : s.makers = [] ∧ s.Loaded classes infos registry := by
    refine of_run_forIn (fun s => s.makers = [] ∧ s.Loaded classes infos registry) ?_ ?_ hs₃
    · rintro ⟨name, entry⟩ hmem s step s' ⟨hmakers, hloaded⟩ hround
      dsimp only at hround
      obtain ⟨n, s₁, hn, hput⟩ := of_run_bind hround
      obtain ⟨rfl, rfl⟩ := of_run_prepare hmakers hn
      obtain ⟨_, s₂, hs₂, hdone⟩ := of_run_bind hput
      cases hs₂
      cases hdone
      refine ⟨hmakers, hloaded.classes, hloaded.registered, ?_, hloaded.workflow⟩
      intro other n hn
      rw [show Table.find? other (Table.put name (wrapped name entry) s₁.nodes) = _ from
        Table.find?_put name other _ s₁.nodes] at hn
      split at hn
      · next hname =>
        cases hn
        exact ⟨entry, hname ▸ hmem, by rw [hname]⟩
      · exact hloaded.nodes other n hn
    · exact ⟨rfl, rfl, hfrom, (fun _ _ hn => nomatch hn), rfl⟩
  exact hloop.2

end RealM

namespace RealState

variable {classes : List (String × NodeClass)} {infos : List Value} {registry : Registry}
  {s : RealState}

theorem Loaded.wraps (h : s.Loaded classes infos registry) : s.Wraps := by
  intro name n hn
  obtain ⟨entry, -, rfl⟩ := h.nodes name n hn
  exact ⟨_, _, rfl, rfl, rfl, rfl⟩

end RealState

end Flowscript
