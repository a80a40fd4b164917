import Flowscript.Proofs.Grouping
import Flowscript.Proofs.Session.Frame

/-!
# What a session shows of its workflows

A workflow that is entered collects the outputs of output nodes until it is left, and is queued then.
The stage of a session is what these steps depend on and change: the workflow that collects outputs,
the workflows without their tasks, and the requests that were made.
-/

namespace Flowscript

open List Option

def Flow.untasked (f : Flow) : Flow := { f with task := .null }

structure Stage where
  vars : List (String × TypeRef)
  nodes : List (String × NodeEntry)
  baseUrl : String
  saveSource : Value
  hook : Option Nat
  flows : Nat → Option Flow
  requests : List Request

def Session.stage {κ : Type} (s : Session κ) : Stage where
  vars := s.vars
  nodes := s.nodes
  baseUrl := s.baseUrl
  saveSource := s.saveSource
  hook := s.hook
  flows := fun id => (Table.find? id s.flows).map Flow.untasked
  requests := s.trace.requests

namespace Stage

/-- The stage after some requests. -/
def send (stage : Stage) (sent : List Request) : Stage :=
  { stage with requests := stage.requests ++ sent }

def change (stage : Stage) (id : Nat) (f : Flow → Flow) : Stage :=
  { stage with flows := fun id' => if id' = id then (stage.flows id').map f else stage.flows id' }

def collect (stage : Stage) (items : List Value) : Stage :=
  match stage.hook with
  | some id => stage.change id fun f => { f with outputs := f.outputs ++ items }
  | none => stage

def outputs (stage : Stage) (id : Nat) : List Value :=
  ((stage.flows id).map fun f => f.outputs).getD []

/-- An operation on the place where outputs are collected can be reached: the name of the place stands
for nothing else, or for a node without an enumeration of the operation's name. -/
def reaches (stage : Stage) (operation : String) : Bool :=
  match Table.find? "Node" stage.vars with
  | none => true
  | some (.node name _) =>
    !Table.has operation (((Table.find? name stage.nodes).map NodeEntry.attached).getD [])
  | some _ => false

def HookInReach (stage : Stage) : Prop :=
  stage.reaches "set_output_hook" = true ∧ stage.reaches "clear_output_hook" = true

@[simp] theorem send_nil (stage : Stage) : stage.send [] = stage := by simp [send]

theorem send_send (stage : Stage) (sent sent' : List Request) :
    (stage.send sent).send sent' = stage.send (sent ++ sent') := by
  simp [send]

theorem collect_of_hook {stage : Stage} {id : Nat} (h : stage.hook = some id) (items : List Value) :
    stage.collect items = stage.change id fun f => { f with outputs := f.outputs ++ items } := by
  rw [collect, h]

theorem collect_of_none {stage : Stage} (h : stage.hook = none) (items : List Value) :
    stage.collect items = stage := by
  rw [collect, h]

theorem collect_nil (stage : Stage) : stage.collect [] = stage := by
  unfold collect
  split
  · simp [change]
  · rfl

theorem hook_collect (stage : Stage) (items : List Value) : (stage.collect items).hook = stage.hook := by
  unfold collect
  split <;> rfl

theorem outputs_change_of_ne (stage : Stage) {id id' : Nat} (h : id' ≠ id) (f : Flow → Flow) :
    (stage.change id f).outputs id' = stage.outputs id' := by
  simp [outputs, change, h]

theorem outputs_collect {stage : Stage}
    (h : ∀ id, stage.hook = some id → (stage.flows id).isSome = true) (items : List Value) (id : Nat) :
    (stage.collect items).outputs id =
      stage.outputs id ++ if stage.hook = some id then items else [] := by
  cases hhook : stage.hook with
  | none => simp [collect_of_none hhook]
  | some active =>
    rw [collect_of_hook hhook]
    by_cases hid : id = active
    · subst hid
      obtain ⟨f, hf⟩ := isSome_iff_exists.mp (h id hhook)
      simp [outputs, change, hf]
    · rw [outputs_change_of_ne _ hid, if_neg (fun heq => hid (some.inj heq).symm),
        append_nil]

end Stage

namespace SessionM

variable {κ α β : Type}

/-! ## Steps that leave the stage alone -/

section Fixes

variable {τ : Type} {view : Session κ → τ}

theorem fixes_check (result : Except Fault α) : Fixes view (check result : SessionM κ α) := fun _ => rfl

theorem fixes_print (text : String) : Fixes Session.stage (print text : SessionM κ Unit) :=
  fun _ => rfl

theorem fixes_freshId : Fixes Session.stage (freshId : SessionM κ Nat) := fun _ => rfl

theorem fixes_enqueue (promptId number : Value) (ids : IdTable) :
    Fixes Session.stage (enqueue promptId number ids : SessionM κ Value) := by
  have hnew : Fixes Session.stage (newTask promptId number ids : SessionM κ Nat) := fun _ => rfl
  have hqueue (f : TaskQueue κ → TaskQueue κ) : Fixes Session.stage (setQueue f) := fun _ => rfl
  refine hnew.bind fun id => ?_
  have hrest : Fixes Session.stage (do
      setQueue fun q => { q with tasks := Table.put promptId id q.tasks }
      taskValue id : SessionM κ Value) :=
    (hqueue _).bind fun _ => (Fixes.stepwise.task id).bind fun _ => Fixes.pure _
  split
  · exact (Fixes.throw _).bind fun _ => hrest
  · exact hrest

theorem stage_setFlow (id : Nat) {f g : Flow → Flow}
    (hfg : ∀ flow, (f flow).untasked = g flow.untasked) (s : Session κ) :
    ((setFlow id f).run s).2.stage = s.stage.change id g := by
  have hflows : ∀ id', (Table.find? id' (Table.update id f s.flows)).map Flow.untasked =
      if id' = id then ((Table.find? id' s.flows).map Flow.untasked).map g
      else (Table.find? id' s.flows).map Flow.untasked := by
    intro id'
    rw [Table.find?_update]
    by_cases h : id' = id
    · rw [if_pos (beq_iff_eq.mpr h), if_pos h]
      cases Table.find? id' s.flows with
      | none => rfl
      | some flow => exact congrArg some (hfg flow)
    · rw [if_neg (by simpa using h), if_neg h]
  exact congrArg (fun flows => { s.stage with flows := flows }) (funext hflows)

theorem fixes_setFlowTask (id : Nat) (t : Value) :
    Fixes Session.stage (setFlow id fun f => { f with task := t } : SessionM κ Unit) := by
  intro s
  refine (stage_setFlow id (f := fun f => { f with task := t }) (g := fun f => f)
    (fun _ => rfl) s).trans ?_
  simp [Stage.change]

end Fixes

end SessionM

/-! ## Calls -/

def batch : Value → List Value
  | .list items => items
  | v => [v]

def HoldsOutputs (v : Value) : Prop := ∀ o ∈ batch v, (Prompt.callOf? o).isSome = true

namespace VirtualNode

def isOutputNode (n : VirtualNode) : Bool :=
  match n.entry.info.get "output_node" with
  | .ok (some (.bool true)) => true
  | _ => false

def offers (n : VirtualNode) : Except Fault Value → List Value
  | .ok v => if n.isOutputNode then batch v else []
  | .error _ => []

end VirtualNode

namespace SessionM

variable {κ α β : Type}

def Leads (post : Stage → Except Fault α → Stage → Prop) (x : SessionM κ α) : Prop :=
  ∀ s, post s.stage (x.run s).1 (x.run s).2.stage

end SessionM

theorem Fixes.leads {κ α β : Type} {post : Stage → Except Fault β → Stage → Prop}
    {x : SessionM κ α} {f : α → SessionM κ β} (hx : Fixes Session.stage x)
    (herror : ∀ stage e, post stage (.error e) stage) (hf : ∀ a, SessionM.Leads post (f a)) :
    SessionM.Leads post (x >>= f) := by
  intro s
  refine hx.run_bind (P := fun final => post s.stage final.1 final.2.stage) (fun e s' hs => ?_)
    fun a s' _ hs => ?_
  · exact hs ▸ herror s'.stage e
  · exact hs ▸ hf a s'

def Makes (stage : Stage) (result : Except Fault Value) (stage' : Stage) : Prop :=
  stage' = stage ∧ ∀ v, result = .ok v → HoldsOutputs v

def Collects (n : VirtualNode) (stage : Stage) (result : Except Fault Value) (stage' : Stage) : Prop :=
  stage' = stage.collect (n.offers result) ∧
    ∀ o ∈ n.offers result, (Prompt.callOf? o).isSome = true

theorem Makes.error (stage : Stage) (e : Fault) : Makes stage (.error e) stage :=
  ⟨rfl, fun _ hv => by cases hv⟩

theorem Collects.error {n : VirtualNode} (stage : Stage) (e : Fault) :
    Collects n stage (.error e) stage :=
  ⟨(stage.collect_nil).symm, forall_mem_nil _⟩

namespace SessionM

variable {κ α β : Type}

section Calls

variable {n : VirtualNode}

theorem leads_makeOutputs (n : VirtualNode) (inputs : List (String × Value)) :
    Leads Makes (makeOutputs n inputs : SessionM κ Value) := by
  refine fun s => ⟨Fixes.stepwise.makeOutputs fixes_freshId inputs s, fun v hv => ?_⟩
  obtain ⟨call, type, outputs, hall, -, houtputs, -⟩ := of_run_makeOutputs (Prod.ext hv rfl)
  have hbatch : batch v = outputs := by
    obtain rfl | ⟨rfl, -⟩ := hall
    · rfl
    · obtain ⟨object, typeName, slot, rfl⟩ := houtputs v mem_cons_self
      rfl
  intro o ho
  obtain ⟨object, typeName, slot, rfl⟩ := houtputs o (hbatch ▸ ho)
  rfl

theorem run_collect {v : Value} (hv : HoldsOutputs v) (id : Nat) (s : Session κ) :
    ∃ s', (collect id v).run s = (.ok (), s') ∧
      s'.stage = s.stage.change id fun f => { f with outputs := f.outputs ++ batch v } := by
  let add (f : Flow) : Flow := { f with outputs := f.outputs ++ batch v }
  have hset := stage_setFlow (f := add) (g := add) id (fun _ => rfl) s
  cases v with
  | list items => exact ⟨_, rfl, hset⟩
  | output => exact ⟨_, rfl, hset⟩
  | _ => exact absurd (hv _ mem_cons_self) (by simp [Prompt.callOf?])

theorem run_offer_of_outputs {v : Value} (hv : HoldsOutputs v) (s : Session κ) :
    (∃ e, (offer n v).run s = (.error e, s)) ∨
      ∃ s', (offer n v).run s = (.ok (), s') ∧ s'.stage = s.stage.collect (n.offers (.ok v)) := by
  unfold offer
  cases hget : n.entry.info.get "output_node" with
  | error e => exact .inl ⟨e, rfl⟩
  | ok found =>
    rw [run_bind_ok (run_check_ok found s)]
    split
    · have hoffers : n.offers (.ok v) = batch v := by
        simp [VirtualNode.offers, VirtualNode.isOutputNode, hget]
      rw [hoffers]
      split
      · exact .inl ⟨_, rfl⟩
      · rw [run_bind_ok (run_get s)]
        cases hhook : s.hook with
        | none => exact .inr ⟨s, rfl, (Stage.collect_of_none hhook _).symm⟩
        | some id =>
          obtain ⟨s', hrun, hs'⟩ := run_collect hv id s
          exact .inr ⟨s', hrun, hs'.trans (Stage.collect_of_hook hhook _).symm⟩
    · next hother =>
      have hoffers : n.offers (.ok v) = [] := by
        have hnode : n.isOutputNode = false := by
          rw [VirtualNode.isOutputNode, hget]
          split
          · next htrue => exact absurd (Except.ok.inj htrue) hother
          · rfl
        rw [VirtualNode.offers, hnode]
        rfl
      exact .inr ⟨s, rfl, by rw [hoffers, Stage.collect_nil]⟩

theorem leads_offer {make : SessionM κ Value} (hmake : Leads Makes make) (pack : Bool) :
    Leads (Collects n) (do
      let outputs ← make
      offer n outputs
      if pack then
        match outputs with
        | .list _ => return outputs
        | output => return .list [output]
      else return outputs) := by
  intro s
  refine Fixes.run_bind (P := fun final => Collects n s.stage final.1 final.2.stage)
    (fun s => (hmake s).1) (fun e s' hs => ?_) fun v s₁ hrun hs₁ => ?_
  · exact hs ▸ Collects.error s'.stage e
  · have hv : HoldsOutputs v := (hmake s).2 v (by rw [hrun])
    -- a packed result holds the same outputs
    have hoffered : ∀ w (s₂ : Session κ), batch w = batch v →
        s₂.stage = s₁.stage.collect (n.offers (.ok v)) → Collects n s.stage (.ok w) s₂.stage := by
      intro w s₂ hw hs₂
      have hoffers : n.offers (.ok w) = n.offers (.ok v) := by simp only [VirtualNode.offers, hw]
      refine ⟨by rw [hs₂, hs₁, hoffers], fun o ho => hv o ?_⟩
      rw [hoffers, VirtualNode.offers] at ho
      split at ho
      · exact ho
      · cases ho
    obtain ⟨e, hoffer⟩ | ⟨s₂, hoffer, hs₂⟩ := run_offer_of_outputs (n := n) hv s₁
    · rw [run_bind_error hoffer]
      exact hs₁ ▸ Collects.error s₁.stage e
    · rw [run_bind_ok hoffer]
      split
      · cases v with
        | list items => exact hoffered _ _ rfl hs₂
        | _ => exact hoffered _ _ rfl hs₂
      · exact hoffered _ _ rfl hs₂

theorem leads_callNode (n : VirtualNode) (arguments : List Value) (named : List (String × Value)) :
    Leads (Collects n) (callNode n arguments named : SessionM κ Value) := by
  unfold callNode
  dsimp only
  split
  · exact (fixes_check _).leads Collects.error fun _ s => Collects.error s.stage _
  · refine (Fixes.stepwise.bindPositional fixes_print _ _).leads Collects.error fun bound =>
      (fixes_check _).leads Collects.error fun kept => ?_
    split
    · exact fun s => Collects.error s.stage _
    · exact leads_offer (leads_makeOutputs n _) _

end Calls

/-! ## Entering -/

section Entering

variable {s : Session κ}

theorem run_checkHook (operation : String) (failure : Fault) (s : Session κ) :
    ∃ e, (checkHook operation failure).run s =
      (if s.stage.reaches operation then .ok () else .error e, s) := by
  have hvars : s.stage.vars = s.vars := rfl
  have hnodes : s.stage.nodes = s.nodes := rfl
  unfold checkHook Stage.reaches
  rw [run_bind_ok (run_get s), hvars, hnodes]
  cases Table.find? "Node" s.vars with
  | none => exact ⟨failure, rfl⟩
  | some ref =>
    cases ref with
    | node name className =>
      refine ⟨failure, ?_⟩
      dsimp only
      rw [run_bind_ok (run_get s)]
      split
      · next hhas =>
        simp only [hhas]
        rfl
      · next hhas =>
        simp only [Bool.eq_false_iff.mpr hhas]
        rfl
    | _ => exact ⟨_, rfl⟩

theorem run_checkHook_ok {operation : String} (failure : Fault)
    (h : s.stage.reaches operation = true) : (checkHook operation failure).run s = (.ok (), s) := by
  obtain ⟨e, hrun⟩ := run_checkHook operation failure s
  rw [hrun, if_pos h]

theorem run_checkHook_error {operation : String} (failure : Fault)
    (h : s.stage.reaches operation = false) :
    ∃ e, (checkHook operation failure).run s = (.error e, s) := by
  obtain ⟨e, hrun⟩ := run_checkHook operation failure s
  exact ⟨e, by rw [hrun, if_neg (by simp [h])]⟩

def emptied (f : Flow) : Flow := { f with outputs := [] }

def emptying (id : Nat) (s : Session κ) : Session κ :=
  { s with flows := Table.update id emptied s.flows }

theorem stage_emptying (id : Nat) (s : Session κ) :
    (emptying id s).stage = s.stage.change id emptied :=
  stage_setFlow (f := emptied) (g := emptied) id (fun _ => rfl) s

theorem run_enterFlow (id : Nat) (hreaches : s.stage.reaches "set_output_hook" = true) :
    (enterFlow id).run s = match s.hook with
      | none => (.ok (), { emptying id s with hook := some id })
      | some _ => (.error .hookInUse, emptying id s) := by
  have hset : (setFlow id fun f => { f with outputs := [] }).run s = (.ok (), emptying id s) := rfl
  have hcheck := run_checkHook_ok (s := emptying id s) .badValue
    (show (emptying id s).stage.reaches "set_output_hook" = true from hreaches)
  unfold enterFlow
  rw [run_bind_ok hset, run_bind_ok hcheck, run_bind_ok (run_get _)]
  have hhook : (emptying id s).hook = s.hook := rfl
  rw [hhook]
  cases s.hook <;> rfl

theorem run_enterFlow_error (id : Nat) (hreaches : s.stage.reaches "set_output_hook" = false) :
    ∃ e, (enterFlow id).run s = (.error e, emptying id s) := by
  have hset : (setFlow id fun f => { f with outputs := [] }).run s = (.ok (), emptying id s) := rfl
  obtain ⟨e, hcheck⟩ := run_checkHook_error (s := emptying id s) .badValue
    (show (emptying id s).stage.reaches "set_output_hook" = false from hreaches)
  refine ⟨e, ?_⟩
  unfold enterFlow
  rw [run_bind_ok hset, run_bind_error hcheck]

def released (s : Session κ) : Session κ := { s with hook := none }

theorem run_clearHook (hreaches : s.stage.reaches "clear_output_hook" = true) :
    clearHook.run s = (.ok (), released s) := by
  unfold clearHook
  rw [run_bind_ok (run_checkHook_ok _ hreaches)]
  rfl

end Entering

/-! ## Queueing -/

/-- A step that makes these requests, given the address of the server. If the server cannot be reached,
it fails on the way. -/
def Sends (planned : String → List Request) (x : SessionM κ α) : Prop :=
  ∀ s, ∃ sent, (x.run s).2.stage = s.stage.send sent ∧
    ((∃ a, (x.run s).1 = .ok a) ∧ sent = planned s.baseUrl ∨
      (x.run s).1 = .error .unreachable ∧ sent ≠ [] ∧ sent <+: planned s.baseUrl)

section Sending

theorem sends_request (method path : String) (parameters body : Option Value) :
    Sends (fun url => [⟨method, url ++ path, parameters, body⟩])
      (request method path parameters body : SessionM κ Response) := by
  intro s
  refine ⟨[⟨method, s.baseUrl ++ path, parameters, body⟩], ?_⟩
  rw [run_request]
  refine ⟨rfl, ?_⟩
  dsimp only
  cases (s.server.ask (method ++ " " ++ route (s.baseUrl ++ path))).1 with
  | noConnection => exact .inr ⟨rfl, by simp, prefix_refl _⟩
  | answer r => exact .inl ⟨⟨r, rfl⟩, rfl⟩

theorem sends_pure (a : α) : Sends (fun _ => []) (pure a : SessionM κ α) :=
  fun s => ⟨[], (s.stage.send_nil).symm, .inl ⟨⟨a, rfl⟩, rfl⟩⟩

theorem sends_print (text : String) : Sends (fun _ => []) (print text : SessionM κ Unit) :=
  fun s => ⟨[], (s.stage.send_nil).symm, .inl ⟨⟨(), rfl⟩, rfl⟩⟩

theorem Sends.bind {planned planned' : String → List Request} {x : SessionM κ α}
    {f : α → SessionM κ β} (hx : Sends planned x) (hf : ∀ a, Sends planned' (f a)) :
    Sends (fun url => planned url ++ planned' url) (x >>= f) := by
  intro s
  obtain ⟨sent, hstage, hsent⟩ := hx s
  rcases hrun : x.run s with ⟨e | a, s₁⟩ <;> rw [hrun] at hstage hsent
  · rw [run_bind_error hrun]
    obtain ⟨⟨a, ha⟩, -⟩ | ⟨he, hne, hsent⟩ := hsent
    · cases ha
    · cases he
      exact ⟨sent, hstage, .inr ⟨rfl, hne, hsent.trans (prefix_append _ _)⟩⟩
  · rw [run_bind_ok hrun]
    obtain ⟨sent', hstage', hsent'⟩ := hf a s₁
    have hurl : s₁.baseUrl = s.baseUrl := congrArg Stage.baseUrl hstage
    obtain ⟨-, rfl⟩ | ⟨he, -⟩ := hsent
    · refine ⟨planned s.baseUrl ++ sent', by rw [hstage', hstage, Stage.send_send], ?_⟩
      rw [hurl] at hsent'
      obtain ⟨hok, rfl⟩ | ⟨he, hne, hsent'⟩ := hsent'
      · exact .inl ⟨hok, rfl⟩
      · exact .inr ⟨he, by simp [hne], (prefix_append_right_inj _).mpr hsent'⟩
    · cases he

def clearRequest (url : String) : Request :=
  ⟨"POST", url ++ "queue", none, some (.dict [("clear", .bool true), ("client_id", clientId)])⟩

def interruptRequest (url : String) : Request :=
  ⟨"POST", url ++ "interrupt", none, some (.dict [("client_id", clientId)])⟩

theorem sends_cancelRemaining :
    Sends (fun url => [clearRequest url]) (cancelRemaining : SessionM κ Unit) := by
  refine (sends_request _ _ _ _).bind fun r => ?_
  split
  · exact sends_print _
  · exact sends_pure _

theorem sends_cancelCurrent :
    Sends (fun url => [interruptRequest url]) (cancelCurrent : SessionM κ Unit) := by
  refine (sends_request _ _ _ _).bind fun r => ?_
  split
  · exact sends_print _
  · exact sends_pure _

def cancels (f : Flow) (url : String) : List Request :=
  if f.cancelAll then [clearRequest url, interruptRequest url]
  else if f.cancelRemaining then [clearRequest url] else []

def cancelFor (f : Flow) : SessionM κ Unit :=
  if f.cancelAll then cancelAll else if f.cancelRemaining then cancelRemaining else pure ()

theorem sends_cancelFor (f : Flow) : Sends (cancels f) (cancelFor f : SessionM κ Unit) := by
  unfold cancels cancelFor
  split
  · exact sends_cancelRemaining.bind fun _ => sends_cancelCurrent
  · split
    · exact sends_cancelRemaining
    · exact sends_pure ()

end Sending

section Queueing

variable {s : Session κ} {id : Nat} {f : Flow}

def promptRequest (url : String) (saveSource : Value) (prompt : Prompt) (source : Value) : Request :=
  ⟨"POST", url ++ "prompt", none, some (.dict [
    ("prompt", prompt.toValue),
    ("extra_data", extraData saveSource.truthy source),
    ("client_id", clientId)])⟩

theorem run_flow (h : Table.find? id s.flows = some f) : (flow id).run s = (.ok f, s) := by
  unfold flow
  rw [run_bind_ok (run_get s), h]
  rfl

theorem promptOf_outputs {outputs : List Value} (h : ∀ o ∈ outputs, (Prompt.callOf? o).isSome = true) :
    promptOf outputs = (check (Prompt.ofOutputs outputs) : SessionM κ Prompt) := by
  unfold promptOf
  split
  · exact absurd (h _ mem_cons_self) (by simp [Prompt.callOf?])
  · rfl

/-- What is sent when a workflow is queued: its prompt, after what cancels other tasks, or else less,
because the server cannot be reached or there is no prompt. -/
inductive Queues (url : String) (saveSource : Value) (f : Flow) (source : Value)
    (result : Except Fault α) : List Request → Prop where
  | prompt {p : Prompt} (hp : Prompt.ofOutputs f.outputs = .ok p) :
      Queues url saveSource f source result (cancels f url ++ [promptRequest url saveSource p source])
  | unreachable {sent : List Request} (hresult : result = .error .unreachable) (hne : sent ≠ [])
      (hsent : sent <+: cancels f url) : Queues url saveSource f source result sent
  | noPrompt {e : Fault} (hp : Prompt.ofOutputs f.outputs = .error e) (hresult : result = .error e) :
      Queues url saveSource f source result (cancels f url)

theorem exists_flow (s' : Session κ) (hflows : s'.stage.flows = s.stage.flows)
    (h : Table.find? id s.flows = some f) :
    ∃ f', Table.find? id s'.flows = some f' ∧ f'.untasked = f.untasked := by
  have hid : (Table.find? id s'.flows).map Flow.untasked = (Table.find? id s.flows).map Flow.untasked :=
    congrFun hflows id
  rw [h] at hid
  exact map_eq_some_iff.mp hid

/-- A workflow is queued after what it cancels, and its outputs remember the task. -/
theorem queueFlow_eq (id : Nat) (source : Value) :
    (queueFlow id source : SessionM κ Value) = flow id >>= fun f => cancelFor f >>= fun _ =>
      put (.workflow id) source >>= fun t => do
        setFlow id fun f => { f with task := t }
        setOutputTasks t (← flow id).outputs
        return t := by
  unfold queueFlow cancelFor
  refine congrArg (flow id >>= ·) (funext fun f => ?_)
  cases f.cancelAll <;> cases f.cancelRemaining <;> rfl

section Outputs

variable (h : Table.find? id s.flows = some f)
  (houtputs : ∀ o ∈ f.outputs, (Prompt.callOf? o).isSome = true)
include h houtputs

theorem run_promptFor : (promptFor (.workflow id)).run s = (Prompt.ofOutputs f.outputs, s) := by
  unfold promptFor
  rw [run_bind_ok (run_flow h), promptOf_outputs houtputs]
  rfl

theorem stage_put (source : Value) {p : Prompt} (hp : Prompt.ofOutputs f.outputs = .ok p) :
    ((put (.workflow id) source).run s).2.stage =
      s.stage.send [promptRequest s.baseUrl s.saveSource p source] := by
  have hprompt : (promptFor (.workflow id)).run s = (.ok p, s) := by rw [run_promptFor h houtputs, hp]
  unfold put
  rw [run_bind_ok hprompt, run_bind_ok (run_get s)]
  refine (Fixes.view_run_bind (fun r => ?_) _ s).trans ?_
  · split
    · exact (fixes_check _).bind fun _ => (fixes_check _).bind fun _ => (fixes_check _).bind fun _ =>
        fixes_enqueue _ _ _
    · exact (fixes_print _).bind fun _ => Fixes.pure _
  · rw [run_request]
    rfl

theorem run_put_error (source : Value) {e : Fault} (he : Prompt.ofOutputs f.outputs = .error e) :
    (put (.workflow id) source).run s = (.error e, s) := by
  have hprompt : (promptFor (.workflow id)).run s = (.error e, s) := by
    rw [run_promptFor h houtputs, he]
  unfold put
  rw [run_bind_error hprompt]

theorem queueFlow_queues (source : Value) :
    ∃ sent, ((queueFlow id source).run s).2.stage = s.stage.send sent ∧
      Queues s.baseUrl s.saveSource f source ((queueFlow id source).run s).1 sent := by
  -- what follows the prompt is not seen on the stage
  rw [queueFlow_eq, run_bind_ok (run_flow h)]
  obtain ⟨sent, hstage, hsent⟩ := sends_cancelFor f s
  rcases hrun : (cancelFor f).run s with ⟨e | _, s₁⟩ <;> rw [hrun] at hstage hsent
  · rw [run_bind_error hrun]
    obtain ⟨⟨_, ha⟩, -⟩ | ⟨he, hne, hpre⟩ := hsent
    · cases ha
    · cases he
      exact ⟨sent, hstage, .unreachable rfl hne hpre⟩
  · obtain ⟨-, rfl⟩ | ⟨he, -⟩ := hsent
    · obtain ⟨f₁, h₁, hf₁⟩ := exists_flow s₁ (by rw [hstage]; rfl) h
      have hsame : f₁.outputs = f.outputs := congrArg (fun f => f.outputs) hf₁
      have houtputs₁ : ∀ o ∈ f₁.outputs, (Prompt.callOf? o).isSome = true := hsame ▸ houtputs
      rw [run_bind_ok hrun]
      cases hp : Prompt.ofOutputs f.outputs with
      | error e =>
        rw [run_bind_error (run_put_error h₁ houtputs₁ source (hsame ▸ hp))]
        exact ⟨_, hstage, .noPrompt hp rfl⟩
      | ok p =>
        refine ⟨_, ?_, .prompt hp⟩
        have hput := stage_put h₁ houtputs₁ source (hsame ▸ hp)
        have hurl : s₁.baseUrl = s.baseUrl := congrArg Stage.baseUrl hstage
        have hsave : s₁.saveSource = s.saveSource := congrArg Stage.saveSource hstage
        refine (Fixes.view_run_bind (fun t => ?_) _ s₁).trans ?_
        · exact (fixes_setFlowTask id t).bind fun _ => (Fixes.stepwise.flow id).bind fun _ =>
            (Fixes.stepwise.setOutputTasks (fun _ => fixes_setFlowTask _ t) (fun _ _ => rfl) _).bind
              fun _ => Fixes.pure _
        · rw [hput, hstage, hurl, hsave, Stage.send_send]
    · cases he

end Outputs

theorem run_leaveFlow {failed : Bool} (source : Value)
    (hreaches : s.stage.reaches "clear_output_hook" = true) (h : Table.find? id s.flows = some f)
    (hqueue : (!failed && f.queueOnExit) = false) :
    (leaveFlow id source failed).run s = (.ok (), released s) := by
  unfold leaveFlow
  rw [run_bind_ok (run_clearHook hreaches), run_bind_ok (run_flow (s := released s) h), hqueue]
  rfl

theorem leaveFlow_queues {failed : Bool} (source : Value)
    (hreaches : s.stage.reaches "clear_output_hook" = true) (h : Table.find? id s.flows = some f)
    (houtputs : ∀ o ∈ f.outputs, (Prompt.callOf? o).isSome = true)
    (hqueue : (!failed && f.queueOnExit) = true) :
    ∃ sent, ((leaveFlow id source failed).run s).2.stage = (released s).stage.send sent ∧
      Queues s.baseUrl s.saveSource f source ((leaveFlow id source failed).run s).1 sent := by
  obtain ⟨sent, hstage, hsent⟩ := queueFlow_queues (s := released s) h houtputs source
  unfold leaveFlow
  rw [run_bind_ok (run_clearHook hreaches), run_bind_ok (run_flow (s := released s) h), if_pos hqueue]
  refine ⟨sent, (Fixes.view_run_bind (fun t => ?_) _ _).trans hstage, ?_⟩
  · split
    · split
      · exact (Fixes.stepwise.finished _).bind fun _ => Fixes.pure _
      · exact Fixes.pure _
    · exact Fixes.pure _
  · -- a result that is there was sent with its prompt; a fault is passed on
    cases hrun : (queueFlow id source).run (released s) with
    | mk result s₁ =>
      rw [hrun] at hsent
      cases hsent with
      | prompt hp => exact .prompt hp
      | unreachable hresult hne hpre =>
        cases hresult
        rw [run_bind_error hrun]
        exact .unreachable rfl hne hpre
      | noPrompt hp hresult =>
        cases hresult
        rw [run_bind_error hrun]
        exact .noPrompt hp rfl

end Queueing

end SessionM

end Flowscript
