import Flowscript.Session.Watch
import Flowscript.Proofs.Runs

/-!
# Operations of a session and their steps

What holds of steps in a row if it holds of each of them holds of reading a session. It holds of calling
a node and of queueing a workflow if it holds of what these do to the session. At the end: what a call
of a node leaves.
-/

namespace Flowscript

open SessionM

namespace Stepwise

variable {κ : Type} {P : {α : Type} → SessionM κ α → Prop} (hP : Stepwise P)
include hP

protected theorem flow (id : Nat) : P (flow id) := by
  refine hP.bind hP.get fun s => ?_
  split <;> exact hP.done _

protected theorem task (id : Nat) : P (task id) := by
  refine hP.bind hP.get fun s => ?_
  split <;> exact hP.done _

protected theorem finished (id : Nat) : P (finished id) := by
  refine hP.bind (hP.task id) fun t => ?_
  split <;> exact hP.done _

protected theorem promptOf (outputs : List Value) : P (promptOf outputs) := by
  unfold promptOf
  split
  · exact hP.bind (hP.flow _) fun f => hP.done _
  · exact hP.done _

protected theorem promptFor (workflow : Value) : P (promptFor workflow) := by
  unfold promptFor
  split
  · exact hP.bind (hP.flow _) fun f => hP.promptOf _
  · exact hP.promptOf _
  · split
    · exact hP.bind (hP.done _) fun outputs => hP.promptOf _
    · exact hP.done _

protected theorem setOutputTasks {v : Value} (hflow : ∀ id, P (setFlow id fun f => { f with task := v }))
    (houtput : ∀ id, P (modify fun s => { s with outputTasks := Table.put id v s.outputTasks }))
    (outputs : List Value) : P (setOutputTasks v outputs) := by
  induction outputs with
  | nil => exact hP.done _
  | cons output rest ih =>
    unfold setOutputTasks
    split
    · exact hP.bind (houtput _) fun _ => ih
    · exact hP.bind (hflow _) fun _ => ih
    · split
      · exact hP.bind (hP.done _) fun _ => ih
      · exact ih

section Print

variable (hprint : ∀ text, P (print text))
include hprint

protected theorem bindPositional (info : Value) (arguments : List Value) :
    P (bindPositional info arguments) :=
  hP.bind (hP.done _) fun _ => hP.bind (hP.done _) fun _ => hP.bind (hprint _) fun _ => hP.done _

section Request

variable (hrequest : ∀ method path parameters body, P (request method path parameters body))
include hrequest

protected theorem cancelRemaining : P cancelRemaining := by
  refine hP.bind (hrequest _ _ _ _) fun r => ?_
  split
  · exact hprint _
  · exact hP.done _

protected theorem cancelCurrent : P cancelCurrent := by
  refine hP.bind (hrequest _ _ _ _) fun r => ?_
  split
  · exact hprint _
  · exact hP.done _

protected theorem queueFlow {id : Nat} {source : Value} (hput : P (put (.workflow id) source))
    (hflow : ∀ id f, P (setFlow id f))
    (houtput : ∀ id v, P (modify fun s => { s with outputTasks := Table.put id v s.outputTasks })) :
    P (queueFlow id source) := by
  have hremaining := hP.cancelRemaining hprint hrequest
  refine hP.bind (hP.flow id) fun f => ?_
  have hrest : P (do
      let t ← put (.workflow id) source
      setFlow id fun f => { f with task := t }
      setOutputTasks t (← flow id).outputs
      return t) :=
    hP.bind hput fun t => hP.bind (hflow _ _) fun _ => hP.bind (hP.flow _) fun f =>
      hP.bind (hP.setOutputTasks (fun _ => hflow _ _) (fun _ => houtput _ _) _) fun _ => hP.done _
  dsimp only
  split
  · exact hP.bind (hP.bind hremaining fun _ => hP.cancelCurrent hprint hrequest) fun _ => hrest
  · split
    · exact hP.bind hremaining fun _ => hrest
    · exact hrest

end Request

end Print

section Calls

variable {n : VirtualNode}

protected theorem makeOutputs (hfresh : P freshId) (inputs : List (String × Value)) :
    P (makeOutputs n inputs) := by
  have hmake (typeName : String) (info type : Value) (call : Nat) (slot : Option Nat) :
      P (do return .output (← freshId) typeName info call type inputs slot : SessionM κ Value) :=
    hP.bind hfresh fun _ => hP.done _
  refine hP.bind (hP.done _) fun type => hP.bind hfresh fun call => ?_
  dsimp only
  split
  · exact hP.done _
  · split
    · exact hmake _ _ _ _ _
    · exact hP.bind (hP.done _) fun _ => hmake _ _ _ _ _
    · exact hP.bind (hP.mapM (fun _ => hP.bind (hP.done _) fun _ => hmake _ _ _ _ _) _) fun _ => hP.done _

protected theorem offer (hflow : ∀ id f, P (setFlow id f)) (outputs : Value) : P (offer n outputs) := by
  refine hP.bind (hP.done _) fun found => ?_
  split
  · split
    · exact hP.done _
    · refine hP.bind hP.get fun s => ?_
      split
      · unfold collect
        split
        · exact hP.bind (hP.done _) fun _ => hflow _ _
        · exact hflow _ _
      · exact hP.done _
  · exact hP.done _

protected theorem callNode (hprint : ∀ text, P (print text)) (hfresh : P freshId)
    (hflow : ∀ id f, P (setFlow id f)) (arguments : List Value) (named : List (String × Value)) :
    P (callNode n arguments named) := by
  unfold callNode
  dsimp only
  split
  · exact hP.bind (hP.done _) fun _ => hP.done _
  · refine hP.bind (hP.bindPositional hprint _ _) fun bound => hP.bind (hP.done _) fun kept => ?_
    split
    · exact hP.done _
    · refine hP.bind (hP.makeOutputs hfresh _) fun outputs => hP.bind (hP.offer hflow outputs) fun _ => ?_
      split
      · split <;> exact hP.done _
      · exact hP.done _

end Calls

end Stepwise

namespace SessionM

variable {κ α : Type} {n : VirtualNode} {v : Value} {s s' : Session κ}

theorem of_run_check {result : Except Fault α} {a : α} (h : (check result).run s = (.ok a, s')) :
    result = .ok a := (Prod.mk.inj h).1

/-- What a call leaves, if it leaves anything: outputs that hold its inputs, alone or in a list. -/
theorem of_run_makeOutputs {inputs : List (String × Value)}
    (h : (makeOutputs n inputs).run s = (.ok v, s')) :
    ∃ call type outputs, (v = .list outputs ∨
        outputs = [v] ∧ (n.shadow? "output_types" = none → n.entry.outputTypes.length ≤ 1)) ∧
      outputs ≠ [] ∧ (∀ o ∈ outputs, ∃ object typeName slot,
        o = .output object typeName n.entry.info call type inputs slot) ∧
      (n.shadow? "output_types" = none →
        ∀ t ∈ n.entry.outputTypes, ∃ typeName, VirtualNode.outputName t = .ok typeName) := by
  unfold makeOutputs at h
  obtain ⟨type, s₁, -, h⟩ := of_run_bind h
  obtain ⟨call, s₂, -, h⟩ := of_run_bind h
  refine ⟨call, type, ?_⟩
  dsimp only at h
  split at h
  · obtain ⟨_, _, hthrow, -⟩ := of_run_bind h
    cases hthrow
  generalize htypes : (if (n.shadow? "output_types").isSome then [] else n.entry.outputTypes) = types at h
  have hown (hn : n.shadow? "output_types" = none) : n.entry.outputTypes = types := by
    simpa [hn] using htypes
  split at h
  · cases h
    exact ⟨[_], .inr ⟨rfl, fun hn => by simp [hown hn]⟩, List.cons_ne_nil _ _,
      List.forall_mem_singleton.mpr ⟨_, _, _, rfl⟩, fun hn => by simp [hown hn]⟩
  next t =>
    obtain ⟨typeName, s₃, hname, h⟩ := of_run_bind h
    cases h
    exact ⟨[_], .inr ⟨rfl, fun hn => by simp [hown hn]⟩, List.cons_ne_nil _ _,
      List.forall_mem_singleton.mpr ⟨_, _, _, rfl⟩, fun hn => by simp [hown hn, of_run_check hname]⟩
  next hnone _ =>
    obtain ⟨outputs, s₃, hrun, h⟩ := of_run_bind h
    cases h
    obtain ⟨hlength, hmakes, hmade⟩ := of_run_mapM hrun
    refine ⟨outputs, .inl rfl, fun hnil => ?_, fun o ho => ?_, fun hn t ht => ?_⟩
    · exact hnone (by simpa [hnil, eq_comm] using hlength)
    · obtain ⟨ti, _, _, hrun⟩ := hmade o ho
      obtain ⟨typeName, _, -, hrun⟩ := of_run_bind hrun
      cases hrun
      exact ⟨_, _, _, rfl⟩
    · obtain ⟨i, hi⟩ := List.getElem?_of_mem (hown hn ▸ ht)
      obtain ⟨o, _, _, hrun⟩ := hmakes _ (List.mk_mem_zipIdx_iff_getElem?.mpr hi)
      obtain ⟨typeName, _, hname, -⟩ := of_run_bind hrun
      exact ⟨typeName, of_run_check hname⟩

theorem of_run_callNode {arguments : List Value} {named : List (String × Value)}
    (h : (callNode n arguments named).run s = (.ok v, s')) :
    ∃ bound surplus kept made, ∃ s₁ s₂ : Session κ,
      NodeInfo.bind n.entry.info arguments = .ok (bound, surplus) ∧
      dropNulls (Value.merge bound named) = .ok kept ∧
      (makeOutputs n (Value.merge n.entry.defaults kept)).run s₁ = (.ok made, s₂) ∧
      (v = made ∨ (n.packs || (n.shadow? "_pack_single_output").isSome) = true ∧
        (∀ items, made ≠ .list items) ∧ v = .list [made]) := by
  unfold callNode at h
  dsimp only at h
  split at h
  · obtain ⟨_, _, _, h⟩ := of_run_bind h
    obtain ⟨_, _, hthrow, -⟩ := of_run_bind h
    cases hthrow
  obtain ⟨bound, _, hbound, h⟩ := of_run_bind h
  obtain ⟨kept, _, hkept, h⟩ := of_run_bind h
  split at h
  · obtain ⟨_, _, hthrow, -⟩ := of_run_bind h
    cases hthrow
  obtain ⟨made, _, hmade, h⟩ := of_run_bind h
  obtain ⟨_, _, -, hlast⟩ := of_run_bind h
  obtain ⟨⟨bound', surplus⟩, _, hbind, hbound⟩ := of_run_bind hbound
  obtain ⟨notice, _, -, hbound⟩ := of_run_bind hbound
  obtain ⟨_, _, -, hbound⟩ := of_run_bind hbound
  obtain rfl : bound' = bound := (of_run_pure hbound).1
  refine ⟨bound', surplus, kept, made, _, _, of_run_check hbind, of_run_check hkept, hmade, ?_⟩
  split at hlast
  next hpacks =>
    split at hlast
    · cases hlast
      exact .inl rfl
    next hsingle =>
      cases hlast
      exact .inr ⟨hpacks, hsingle, rfl⟩
  · cases hlast
    exact .inl rfl

end SessionM

end Flowscript
