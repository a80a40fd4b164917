import Flowscript.Proofs.Session.Frame
import Flowscript.Proofs.Workflow.Signature

/-!
# Arguments of calls

The arguments of a call in a script stand in the order of the declared inputs, with an expression
for nothing where an input has none. A called node binds them back to the names of its inputs.
-/

namespace Flowscript

open List

variable {named : List (String × Value)}

open Workflow (HasGroup)

namespace NodeInfo

variable {groups : List (String × Value)} {info : Value}

end NodeInfo

def Value.given : Value → Option Value
  | null => none
  | v => some v

theorem Value.given_of_ne {v : Value} (h : v ≠ .null) : v.given = some v := by
  cases v with
  | null => exact absurd rfl h
  | _ => rfl

theorem dropNulls_eq (h : ∀ entry ∈ named, isEmptyOutput entry.2 = false) :
    dropNulls named = .ok (named.filterMap fun entry => entry.2.given.map fun v => (entry.1, v)) := by
  induction named with
  | nil => rfl
  | cons entry rest ih =>
    obtain ⟨name, v⟩ := entry
    rw [forall_mem_cons] at h
    have hrest := ih h.2
    by_cases hv : v = .null
    · subst hv
      exact hrest
    · rw [dropNulls, h.1, hrest, filterMap_cons, Value.given_of_ne hv]
      · rfl
      · exact hv

theorem lookup_filterMap_given (h : (named.map Prod.fst).Nodup) (name : String) :
    Value.lookup name (named.filterMap fun entry => entry.2.given.map fun v => (entry.1, v)) =
      (Value.lookup name named).bind Value.given := by
  induction named with
  | nil => rfl
  | cons entry rest ih =>
    obtain ⟨k, v⟩ := entry
    rw [map_cons, nodup_cons] at h
    have hrest := ih h.2
    rw [filterMap_cons]
    by_cases hk : k = name
    · subst hk
      rw [Value.lookup_eq_none_iff.mpr h.1] at hrest
      cases hv : v.given with
      | none => simpa [Value.lookup, hv] using hrest
      | some w => simp [Value.lookup, hv]
    · cases hv : v.given with
      | none => simpa [Value.lookup, hk] using hrest
      | some w => simpa [Value.lookup, hk] using hrest

theorem nodup_keys_filterMap_given (h : (named.map Prod.fst).Nodup) :
    ((named.filterMap fun entry => entry.2.given.map fun v => (entry.1, v)).map Prod.fst).Nodup := by
  refine h.sublist ?_
  induction named with
  | nil => exact .slnil
  | cons entry rest ih =>
    rw [map_cons, nodup_cons] at h
    rw [filterMap_cons]
    cases entry.2.given with
    | none => exact (ih h.2).cons _
    | some w => exact (ih h.2).cons_cons _

namespace VirtualNode

/-- No enumeration takes the place of an attribute of the node that a call reads, and each type of
its outputs can make some. -/
structure Intact (n : VirtualNode) : Prop where
  own : ∀ name ∈ ["info", "defaults", "output_types", "output_hook"], n.shadow? name = none
  makes : ∀ t ∈ n.entry.outputTypes, ∃ typeName, outputName t = .ok typeName

def IsOutput (n : VirtualNode) (call : Nat) (type : Value) (inputs : List (String × Value))
    (slot : Option Nat) (v : Value) : Prop :=
  ∃ object typeName, v = .output object typeName n.entry.info call type inputs slot

/-- The slots of the outputs that a call leaves; a node without outputs leaves one that is empty. -/
def slots (n : VirtualNode) : List (Option Nat) :=
  if n.entry.outputTypes = [] then [none] else (List.range n.entry.outputTypes.length).map some

end VirtualNode

namespace SessionM

variable {κ : Type} {n : VirtualNode} {info : List (String × Value)} {type : Value}

theorem run_makeOutputs (hn : n.Intact) (htype : n.entry.info.entry "name" = .ok type)
    (inputs : List (String × Value)) (s : Session κ) :
    ∃ v s' outputs, (makeOutputs n inputs).run s = (.ok v, s') ∧ s'.trace = s.trace ∧
      s.fresh < s'.fresh ∧ (v = .list outputs ∨ outputs = [v] ∧ v.iterable = false) ∧
      List.Forall₂ (n.IsOutput s.fresh type inputs) n.slots outputs := by
  have hinfo : n.infoEntry "name" = .ok type := by
    rw [VirtualNode.infoEntry, hn.own "info" (by simp), htype]
  have hnone : n.shadow? "output_types" = none := hn.own "output_types" (by simp)
  unfold makeOutputs
  rw [hinfo, run_bind_ok (run_check_ok type s)]
  simp only [hnone, Option.isSome_none, Bool.false_and, Bool.false_eq_true, if_false]
  -- one identity for the call, and one for each output
  rw [run_bind_ok (show freshId.run s = (.ok s.fresh, { s with fresh := s.fresh + 1 }) from rfl)]
  have hmakes := hn.makes
  cases htypes : n.entry.outputTypes with
  | nil =>
    have hslots : n.slots = [none] := by simp [VirtualNode.slots, htypes]
    rw [hslots]
    exact ⟨_, _, [_], rfl, rfl, Nat.lt_add_of_pos_right (n := s.fresh) Nat.two_pos, .inr ⟨rfl, rfl⟩,
      .cons ⟨_, _, rfl⟩ .nil⟩
  | cons t rest =>
    have hslots : n.slots = (t :: rest).zipIdx.map fun ti => some ti.2 := by
      rw [VirtualNode.slots, htypes, if_neg (cons_ne_nil t rest), range_eq_range',
        ← zipIdx_map_snd 0 (t :: rest), map_map]
      rfl
    rw [htypes] at hmakes
    rw [hslots]
    cases rest with
    | nil =>
      obtain ⟨typeName, hname⟩ := hmakes t mem_cons_self
      dsimp only
      rw [hname]
      exact ⟨_, _, [_], rfl, rfl, Nat.lt_add_of_pos_right (n := s.fresh) Nat.two_pos, .inr ⟨rfl, rfl⟩,
        .cons ⟨_, _, rfl⟩ .nil⟩
    | cons t' rest =>
      obtain ⟨outputs, s', hrun, ⟨htrace, hfresh⟩, houtputs⟩ := run_mapM_ok (σ := Session κ)
        (fun s' => s'.trace = s.trace ∧ s.fresh < s'.fresh)
        (fun ti o => n.IsOutput s.fresh type inputs (some ti.2) o)
        (f := fun ti => do
          let typeName ← check (VirtualNode.outputName ti.1)
          return .output (← freshId) typeName n.entry.info s.fresh type inputs (some ti.2))
        (s := { s with fresh := s.fresh + 1 })
        (fun ti (hti : ti ∈ (t :: t' :: rest).zipIdx) s₁ hs₁ => by
          obtain ⟨typeName, hname⟩ := hmakes ti.1 (fst_mem_of_mem_zipIdx hti)
          rw [hname]
          exact ⟨_, _, rfl, ⟨hs₁.1, Nat.lt_succ_of_lt hs₁.2⟩, _, _, rfl⟩) ⟨rfl, Nat.lt_succ_self s.fresh⟩
      refine ⟨.list outputs, s', outputs, ?_, htrace, hfresh, .inl rfl,
        List.forall₂_map_left_iff.mpr houtputs⟩
      rw [run_bind_ok hrun]
      rfl

theorem run_offer (hn : n.Intact) (hinfo : n.entry.info = .dict info) (outputs : Value)
    (houtputs : outputs.iterable = true → ∃ items, outputs.iterate = .ok items) (s : Session κ) :
    ∃ s', (offer n outputs).run s = (.ok (), s') ∧ s'.trace = s.trace ∧ s'.fresh = s.fresh := by
  have hget : n.entry.info.get "output_node" = .ok (Value.lookup "output_node" info) := by
    rw [hinfo]
    rfl
  have hcollect (flow : Nat) : ∃ s', (collect flow outputs).run s = (.ok (), s') ∧
      s'.trace = s.trace ∧ s'.fresh = s.fresh := by
    unfold collect
    by_cases hiterable : outputs.iterable = true
    · obtain ⟨items, hitems⟩ := houtputs hiterable
      rw [if_pos hiterable, hitems, run_bind_ok (run_check_ok items s)]
      exact ⟨_, rfl, rfl, rfl⟩
    · rw [if_neg hiterable]
      exact ⟨_, rfl, rfl, rfl⟩
  unfold offer
  rw [hget, run_bind_ok (run_check_ok _ s)]
  split
  · simp only [hn.own "output_hook" (by simp), Option.isSome_none, Bool.false_eq_true, if_false]
    rw [run_bind_ok (run_get s)]
    cases s.hook with
    | none => exact ⟨s, rfl, rfl, rfl⟩
    | some flow => exact hcollect flow
  · exact ⟨s, rfl, rfl, rfl⟩

theorem run_bindPositional {info : Value} {arguments : List Value} {bound : List (String × Value)}
    (hbind : NodeInfo.bind info arguments = .ok (bound, [])) (s : Session κ) :
    (bindPositional info arguments).run s = (.ok bound, s) := by
  unfold bindPositional
  rw [hbind, run_bind_ok (run_check_ok _ s)]
  have htrace : { s with trace := { s.trace with log := s.trace.log ++ "" } } = s := by
    rw [String.append_empty]
  exact congrArg (Prod.mk (Except.ok bound)) htrace

theorem run_callNode_named (hn : n.Intact) (hinfo : n.entry.info = .dict info)
    (htype : Value.lookup "name" info = some type) {arguments : List Value}
    {named bound kept : List (String × Value)}
    (hbind : NodeInfo.bind n.entry.info arguments = .ok (bound, []))
    (hkept : dropNulls (Value.merge bound named) = .ok kept) (s : Session κ) :
    ∃ v s' outputs, (callNode n arguments named).run s = (.ok v, s') ∧ s'.trace = s.trace ∧
      s.fresh < s'.fresh ∧ (v = .list outputs ∨ n.packs = false ∧ outputs = [v]) ∧
      List.Forall₂ (n.IsOutput s.fresh type (Value.merge n.entry.defaults kept)) n.slots outputs := by
  have hname : n.entry.info.entry "name" = .ok type := by
    rw [hinfo]
    exact Value.item_dict_str htype
  obtain ⟨v, s₁, outputs, hmake, htrace₁, hfresh₁, hv, houtputs⟩ :=
    run_makeOutputs hn hname (Value.merge n.entry.defaults kept) s
  have hiterate : v.iterable = true → ∃ items, v.iterate = .ok items := by
    intro hiterable
    rcases hv with rfl | ⟨-, hsingle⟩
    · exact ⟨outputs, rfl⟩
    · exact absurd hiterable (by simp [hsingle])
  obtain ⟨s₂, hoffer, htrace₂, hfresh₂⟩ := run_offer hn hinfo v hiterate s₁
  refine ⟨if n.packs || (n.shadow? "_pack_single_output").isSome then .list outputs else v, s₂,
    outputs, ?_, htrace₂.trans htrace₁, hfresh₂ ▸ hfresh₁, ?_, houtputs⟩
  · unfold callNode
    simp only [hn.own "info" (by simp), hn.own "defaults" (by simp), Option.isSome_none,
      Bool.false_eq_true, if_false]
    rw [run_bind_ok (run_bindPositional hbind s), hkept, run_bind_ok (run_check_ok kept s), run_bind_ok hmake,
      run_bind_ok hoffer]
    split
    · rcases hv with rfl | ⟨rfl, hsingle⟩
      · rfl
      · cases v with
        | list items => cases hsingle
        | _ => rfl
    · rfl
  · split
    · exact .inl rfl
    · next hpacks =>
      rcases hv with rfl | ⟨houtput, -⟩
      · exact .inl rfl
      · refine .inr ⟨?_, houtput⟩
        cases hn' : n.packs with
        | false => rfl
        | true => exact absurd (by rw [hn', Bool.true_or]) hpacks

end SessionM

def blendGroups : List (String × Value) :=
  [("required", .dict [("image", .list [.str "IMAGE"]), ("amount", .list [.str "FLOAT"])]),
    ("optional", .dict [("mask", .list [.str "MASK"]), ("image", .list [.str "IMAGE"])]),
    ("hidden", .null)]

def blendInfo : List (String × Value) :=
  [("name", .str "Blend"), ("input", .dict blendGroups), ("output_node", .bool true)]

def blendNode : VirtualNode where
  entry := ⟨.dict blendInfo, [("amount", .int 1), ("mask", .int 2)], [.anyOutput, .data "Mask" "MASK"], []⟩
  packs := false

end Flowscript
