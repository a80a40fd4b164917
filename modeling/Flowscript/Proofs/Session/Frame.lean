import Flowscript.Proofs.Session.Steps
import Flowscript.Proofs.Table

/-!
# What steps of a session leave alone

Most steps of a session neither finish a task nor change what was recorded for one. Such steps are
calm: they only add tasks under new identities, and they keep the queue in order.
-/

namespace Flowscript

open List

def Response.NamesPrompt (r : Response) : Prop :=
  ∀ body v, r.json = .ok body → body.entry "prompt_id" = .ok v → ∃ p, v = .str p

theorem Response.json_of_body {r : Response} {v : Value} (h : r.body = .ok v) : r.json = .ok v := by
  unfold body at h
  split at h
  · rename_i w hw
    rw [hw, Except.ok.inj h]
  · cases h

namespace Server

def NamesPrompts (server : Server) : Prop :=
  ∀ route replies, (route, replies) ∈ server.routes → ∀ r, Reply.answer r ∈ replies → r.NamesPrompt

theorem next_mem (replies : List Reply) :
    (next replies).1 = .answer .notFound ∨ (next replies).1 ∈ replies := by
  match replies with
  | [] => exact .inl rfl
  | [only] => exact .inr mem_cons_self
  | first :: second :: rest => exact .inr mem_cons_self

theorem next_subset (replies : List Reply) : ∀ r ∈ (next replies).2, r ∈ replies := by
  match replies with
  | [] => exact fun r hr => hr
  | [only] => exact fun r hr => hr
  | first :: second :: rest => exact fun r hr => mem_cons_of_mem _ hr

theorem notFound_namesPrompt : Response.notFound.NamesPrompt := by
  intro body v hbody hv
  obtain rfl : Value.dict [] = body := by simpa [Response.notFound] using hbody
  cases hv

theorem ask_namesPrompts (server : Server) (route : String) (hs : server.NamesPrompts) :
    (server.ask route).2.NamesPrompts ∧
      ∀ r, (server.ask route).1 = .answer r → r.NamesPrompt := by
  unfold ask
  split
  · refine ⟨hs, fun r hr => ?_⟩
    exact (Reply.answer.inj hr) ▸ notFound_namesPrompt
  · rename_i found replies hfound
    have hmem := mem_of_find?_eq_some hfound
    refine ⟨fun route' replies' hmem' r hr => ?_, fun r hr => ?_⟩
    · obtain ⟨⟨old, oldReplies⟩, hold, heq⟩ := mem_map.1 hmem'
      by_cases hroute : (old == route) = true
      · simp only [hroute, if_true, Prod.mk.injEq] at heq
        exact hs _ _ hmem r (next_subset _ _ (heq.2 ▸ hr))
      · simp only [hroute, Bool.false_eq_true, if_false, Prod.mk.injEq] at heq
        exact hs _ _ hold r (heq.2 ▸ hr)
    · obtain hnone | hin := next_mem replies
      · exact (Reply.answer.inj (hnone.symm.trans hr)) ▸ notFound_namesPrompt
      · exact hs _ _ hmem r (hr ▸ hin)

end Server

namespace Session

variable {κ : Type}

/-- A session whose queue is in order: the tasks in the queue are known, and they have identities
and prompt ids of their own. -/
structure Valid (s : Session κ) : Prop where
  below : ∀ {id t}, (id, t) ∈ s.tasks → id < s.fresh
  known : ∀ {key id}, (key, id) ∈ s.queue.tasks → ∃ t, Table.find? id s.tasks = some t
  text : ∀ key ∈ s.queue.tasks.map Prod.fst, ∃ p, key = Value.str p
  keys_nodup : (s.queue.tasks.map Prod.fst).Nodup
  ids_nodup : (s.queue.tasks.map Prod.snd).Nodup
  answers : s.server.NamesPrompts

def Registered (s : Session κ) (id : Nat) : Prop := id ∈ s.queue.tasks.map Prod.snd

/-- A later session in which only some tasks may be left to be finished: known tasks keep what was
recorded for them, and a task that joined the queue is new. -/
structure Keeps (MayFinish : Nat → Prop) (s s' : Session κ) : Prop where
  valid : s'.Valid
  fresh_le : s.fresh ≤ s'.fresh
  jobs : ∃ queued, s'.jobs = s.jobs ++ queued ∧
    ∀ id outputs, Job.finish id outputs ∈ queued → MayFinish id
  recorded : ∀ {id t}, Table.find? id s.tasks = some t →
    ∃ t', Table.find? id s'.tasks = some t' ∧ t'.newOutputs = t.newOutputs ∧ t'.result = t.result
  registered : ∀ {key id}, (key, id) ∈ s'.queue.tasks → (key, id) ∈ s.queue.tasks ∨
    s.fresh ≤ id ∧ ∃ t, Table.find? id s'.tasks = some t ∧ t.newOutputs = [] ∧ t.result = none

variable {F G : Nat → Prop} {s s' s'' : Session κ}

theorem Keeps.mono (hFG : ∀ id, F id → G id) (h : Keeps F s s') : Keeps G s s' := by
  obtain ⟨queued, hjobs, hfinish⟩ := h.jobs
  exact { h with jobs := ⟨queued, hjobs, fun id outputs hmem => hFG id (hfinish id outputs hmem)⟩ }

theorem Keeps.refl (hv : s.Valid) : Keeps F s s where
  valid := hv
  fresh_le := Nat.le_refl _
  jobs := ⟨[], by simp, by simp⟩
  recorded := fun h => ⟨_, h, rfl, rfl⟩
  registered := .inl

theorem Keeps.trans (h : Keeps F s s') (h' : Keeps F s' s'') : Keeps F s s'' where
  valid := h'.valid
  fresh_le := Nat.le_trans h.fresh_le h'.fresh_le
  jobs := by
    obtain ⟨queued, hjobs, hfinish⟩ := h.jobs
    obtain ⟨queued', hjobs', hfinish'⟩ := h'.jobs
    refine ⟨queued ++ queued', by rw [hjobs', hjobs, append_assoc], fun id outputs hmem => ?_⟩
    exact (mem_append.1 hmem).elim (hfinish id outputs) (hfinish' id outputs)
  recorded := by
    intro id t ht
    obtain ⟨t', ht', hout, hres⟩ := h.recorded ht
    obtain ⟨t'', ht'', hout', hres'⟩ := h'.recorded ht'
    exact ⟨t'', ht'', hout'.trans hout, hres'.trans hres⟩
  registered := by
    intro key id hmem
    obtain hmem | ⟨hle, hnew⟩ := h'.registered hmem
    · obtain hmem | ⟨hle, t, ht, hout, hres⟩ := h.registered hmem
      · exact .inl hmem
      · obtain ⟨t', ht', hout', hres'⟩ := h'.recorded ht
        exact .inr ⟨hle, t', ht', hout'.trans hout, hres'.trans hres⟩
    · exact .inr ⟨Nat.le_trans h.fresh_le hle, hnew⟩

theorem Keeps.of_eq (hv : s.Valid) (htasks : s'.tasks = s.tasks) (hqueue : s'.queue.tasks = s.queue.tasks)
    (hfresh : s'.fresh = s.fresh) (hjobs : s'.jobs = s.jobs) (hserver : s'.server = s.server) :
    Keeps F s s' where
  valid := by
    refine ⟨?_, ?_, ?_, ?_, ?_, ?_⟩
    · rw [htasks, hfresh]; exact hv.below
    · rw [htasks, hqueue]; exact hv.known
    · rw [hqueue]; exact hv.text
    · rw [hqueue]; exact hv.keys_nodup
    · rw [hqueue]; exact hv.ids_nodup
    · rw [hserver]; exact hv.answers
  fresh_le := hfresh ▸ Nat.le_refl _
  jobs := ⟨[], by simp [hjobs], by simp⟩
  recorded := by
    intro id t ht
    rw [htasks]
    exact ⟨t, ht, rfl, rfl⟩
  registered := by
    intro key id hmem
    rw [hqueue] at hmem
    exact .inl hmem

theorem Keeps.not_registered (h : Keeps F s s') {id : Nat} (hlt : id < s.fresh)
    (hid : ¬ s.Registered id) : ¬ s'.Registered id := by
  intro hmem
  obtain ⟨⟨key, id'⟩, hentry, rfl⟩ := mem_map.1 hmem
  obtain hold | ⟨hle, -⟩ := h.registered hentry
  · exact hid (mem_map_of_mem hold)
  · exact absurd hlt (Nat.not_lt.2 hle)

end Session

namespace SessionM

variable {κ α β : Type}

/-- A step that keeps tasks, whether it succeeds or fails. -/
def Calm (MayFinish : Nat → Prop) (x : SessionM κ α) : Prop :=
  ∀ s : Session κ, s.Valid → Session.Keeps MayFinish s (x.run s).2

end SessionM

def Runner.Calm {κ : Type} (run : Runner κ) : Prop :=
  ∀ code flow, SessionM.Calm (fun _ => False) (run code flow)

namespace SessionM

variable {κ α β : Type}

section Runs

variable {s s' : Session κ}

theorem run_mark (f : Trace → Trace) (s : Session κ) :
    (mark f).run s = (.ok (), { s with trace := f s.trace }) := rfl

theorem run_setQueue (f : TaskQueue κ → TaskQueue κ) (s : Session κ) :
    (setQueue f).run s = (.ok (), { s with queue := f s.queue }) := rfl

theorem run_check_ok (a : α) (s : Session κ) : (check (.ok a)).run s = (.ok a, s) := rfl

theorem run_newTask (promptId number : Value) (ids : IdTable) (s : Session κ) :
    (newTask promptId number ids).run s = (.ok s.fresh, { s with
      fresh := s.fresh + 1
      tasks := s.tasks ++ [(s.fresh, ⟨number, promptId, ids, [], none, [], []⟩)] }) := rfl

theorem run_task (id : Nat) (s : Session κ) :
    (task id).run s = match Table.find? id s.tasks with
      | some t => (.ok t, s)
      | none => (.error .unbound, s) := by
  unfold task
  rw [run_bind_ok (run_get s)]
  cases Table.find? id s.tasks <;> rfl

theorem run_taskValue (id : Nat) (s : Session κ) :
    (taskValue id).run s = match Table.find? id s.tasks with
      | some t => (.ok (.task id t.number t.promptId), s)
      | none => (.error .unbound, s) := by
  unfold taskValue
  rw [run_bind, run_task]
  cases Table.find? id s.tasks <;> rfl

end Runs

section Calm

variable {F G : Nat → Prop} {x : SessionM κ α} {s : Session κ}

theorem keeps_bind {f : α → SessionM κ β} (hx : Session.Keeps F s (x.run s).2)
    (hf : ∀ a s', x.run s = (.ok a, s') → s'.Valid → Session.Keeps F s' ((f a).run s').2) :
    Session.Keeps F s ((x >>= f).run s).2 := by
  rcases h : x.run s with ⟨e | a, s'⟩ <;> rw [h] at hx
  · rw [run_bind_error h]; exact hx
  · rw [run_bind_ok h]; exact hx.trans (hf a s' h hx.valid)

theorem Calm.mono (hx : Calm F x) (hFG : ∀ id, F id → G id) : Calm G x :=
  fun s hv => (hx s hv).mono hFG

theorem Calm.bind {x : SessionM κ α} {f : α → SessionM κ β} (hx : Calm F x)
    (hf : ∀ a, Calm F (f a)) : Calm F (x >>= f) :=
  fun s hv => keeps_bind (hx s hv) fun a s' _ hv' => hf a s' hv'

theorem Calm.tryCatch {handle : Fault → SessionM κ α} (hx : Calm F x) (hh : ∀ e, Calm F (handle e)) :
    Calm F (tryCatch x handle) := by
  intro s hv
  have hxs := hx s hv
  rw [run_tryCatch]
  rcases h : x.run s with ⟨e | a, s'⟩ <;> rw [h] at hxs
  · exact hxs.trans (hh e s' hxs.valid)
  · exact hxs

theorem calm_ite {c : Prop} [Decidable c] {y : SessionM κ α} (hx : Calm F x) (hy : Calm F y) :
    Calm F (if c then x else y) := by
  split
  · exact hx
  · exact hy

theorem calm_pure (a : α) : Calm F (pure a : SessionM κ α) := fun _ hv => .refl hv

theorem calm_throw (e : Fault) : Calm F (throw e : SessionM κ α) := fun _ hv => .refl hv

theorem calm_check (result : Except Fault α) : Calm F (check result : SessionM κ α) :=
  fun _ hv => .refl hv

theorem calm_get : Calm F (get : SessionM κ (Session κ)) := fun _ hv => .refl hv

theorem Calm.stepwise : Stepwise fun {α} (x : SessionM κ α) => Calm F x :=
  ⟨calm_check, calm_get, Calm.bind⟩

theorem calm_modify {f : Session κ → Session κ} (h : ∀ s, s.Valid → Session.Keeps F s (f s)) :
    Calm F (modify f : SessionM κ PUnit) := h

theorem calm_mark (f : Trace → Trace) : Calm F (mark f : SessionM κ Unit) :=
  calm_modify fun _ hv => .of_eq hv rfl rfl rfl rfl rfl

theorem calm_print (text : String) : Calm F (print text : SessionM κ Unit) := calm_mark _

theorem calm_printLine (line : String) : Calm F (printLine line : SessionM κ Unit) := calm_mark _

theorem calm_warn (text : String) : Calm F (warn text : SessionM κ Unit) := calm_mark _

theorem calm_emit (e : Event) : Calm F (emit e : SessionM κ Unit) := calm_mark _

theorem calm_setQueue {f : TaskQueue κ → TaskQueue κ} (h : ∀ q, (f q).tasks = q.tasks) :
    Calm F (setQueue f) :=
  calm_modify fun s hv => .of_eq hv rfl (h s.queue) rfl rfl rfl

theorem calm_setFlow (id : Nat) (f : Flow → Flow) : Calm F (setFlow id f : SessionM κ Unit) :=
  calm_modify fun _ hv => .of_eq hv rfl rfl rfl rfl rfl

theorem calm_setOutputTask (id : Nat) (v : Value) :
    Calm F (modify fun s => { s with outputTasks := Table.put id v s.outputTasks } :
      SessionM κ PUnit) :=
  calm_modify fun _ hv => .of_eq hv rfl rfl rfl rfl rfl

theorem calm_freshId : Calm F (freshId : SessionM κ Nat) := by
  intro s hv
  refine { Session.Keeps.refl hv with valid := ?_, fresh_le := Nat.le_succ _ }
  exact { hv with below := fun hmem => Nat.lt_succ_of_lt (hv.below hmem) }

theorem run_request (method path : String) (parameters body : Option Value) (s : Session κ) :
    (request method path parameters body).run s =
      let asked := s.server.ask (method ++ " " ++ route (s.baseUrl ++ path))
      (match asked.1 with
        | .noConnection => .error .unreachable
        | .answer r => .ok r,
        { s with
          server := asked.2
          trace := { s.trace with
            requests := s.trace.requests ++ [⟨method, s.baseUrl ++ path, parameters, body⟩] } }) := by
  unfold request
  rw [run_bind_ok (run_get s), run_bind_ok (run_mark _ s)]
  dsimp only
  cases h : s.server.ask (method ++ " " ++ route (s.baseUrl ++ path)) with
  | mk reply server => cases reply <;> rfl

theorem keeps_request (method path : String) (parameters body : Option Value) (hv : s.Valid) :
    Session.Keeps F s ((request method path parameters body).run s).2 ∧
      ∀ r, ((request method path parameters body).run s).1 = .ok r → r.NamesPrompt := by
  have hask :=
    Server.ask_namesPrompts s.server (method ++ " " ++ route (s.baseUrl ++ path)) hv.answers
  rw [run_request]
  refine ⟨{ Session.Keeps.refl hv with valid := ?_ }, fun r hr => ?_⟩
  · exact { hv with answers := hask.1 }
  · refine hask.2 r ?_
    dsimp only at hr
    split at hr
    · cases hr
    · rename_i r' hr'
      rw [hr', Except.ok.inj hr]

theorem calm_request (method path : String) (parameters body : Option Value) :
    Calm F (request method path parameters body : SessionM κ Response) :=
  fun _ hv => (keeps_request method path parameters body hv).1

theorem run_enqueue (promptId number : Value) (ids : IdTable) (s : Session κ) :
    ∃ t : TaskState, t.newOutputs = [] ∧ t.result = none ∧
      ((enqueue promptId number ids).run s).2 = { s with
        fresh := s.fresh + 1
        tasks := s.tasks ++ [(s.fresh, t)]
        queue := { s.queue with
          tasks := if promptId.hashable then Table.put promptId s.fresh s.queue.tasks
            else s.queue.tasks } } := by
  refine ⟨⟨number, promptId, ids, [], none, [], []⟩, rfl, rfl, ?_⟩
  unfold enqueue
  rw [run_bind_ok (run_newTask promptId number ids s)]
  cases h : promptId.hashable
  · rfl
  · simp only [Bool.not_true, Bool.false_eq_true, if_false, if_true]
    rw [run_bind_ok (run_setQueue _ _), run_taskValue]
    split <;> rfl

theorem keeps_enqueue {promptId : Value} (hp : ∃ p, promptId = .str p) (number : Value) (ids : IdTable)
    (hv : s.Valid) :
    Session.Keeps F s ((enqueue promptId number ids).run s).2 := by
  obtain ⟨p, rfl⟩ := hp
  obtain ⟨t, hout, hres, hrun⟩ := run_enqueue (.str p) number ids s
  rw [hrun, if_pos (show (Value.str p).hashable = true from rfl)]
  have hnone : Table.find? s.fresh s.tasks = none := by
    cases h : Table.find? s.fresh s.tasks with
    | none => rfl
    | some t => exact absurd (hv.below (Table.mem_of_find? h)) (Nat.lt_irrefl _)
  have hnew : Table.find? s.fresh (s.tasks ++ [(s.fresh, t)]) = some t := by
    rw [Table.find?_append, hnone]
    simp [Table.find?]
  have hkept : ∀ {id t'}, Table.find? id s.tasks = some t' →
      Table.find? id (s.tasks ++ [(s.fresh, t)]) = some t' := by
    intro id t' h
    rw [Table.find?_append, h, Option.some_or]
  refine ⟨⟨?_, ?_, ?_, ?_, ?_, hv.answers⟩, Nat.le_succ _, ⟨[], by simp, by simp⟩, ?_, ?_⟩
  · intro id t' hmem
    obtain hmem | hmem := mem_append.1 hmem
    · exact Nat.lt_succ_of_lt (hv.below hmem)
    · obtain ⟨rfl, rfl⟩ := Prod.mk.inj (mem_singleton.1 hmem)
      exact Nat.lt_succ_self _
  · intro key id hmem
    obtain hold | rfl := Table.mem_put hmem
    · obtain ⟨t', ht'⟩ := hv.known hold
      exact ⟨t', hkept ht'⟩
    · exact ⟨t, hnew⟩
  · obtain hsame | ⟨-, hadd⟩ := Table.map_fst_put (Value.str p) s.fresh s.queue.tasks
    · rw [hsame]
      exact hv.text
    · intro key hkey
      rw [hadd, mem_append, mem_singleton] at hkey
      exact hkey.elim (hv.text key) fun h => ⟨p, h⟩
  · obtain hsame | ⟨hfree, hadd⟩ := Table.map_fst_put (Value.str p) s.fresh s.queue.tasks
    · rw [hsame]
      exact hv.keys_nodup
    · rw [hadd, nodup_append]
      refine ⟨hv.keys_nodup, nodup_singleton _, fun a ha b hb hab => ?_⟩
      have hfalse := hfree a ha
      rw [hab, mem_singleton.1 hb] at hfalse
      simp at hfalse
  · refine Table.nodup_snd_put (fun hmem => ?_) hv.ids_nodup
    obtain ⟨⟨key, id⟩, hentry, rfl⟩ := mem_map.1 hmem
    obtain ⟨t', ht'⟩ := hv.known hentry
    exact absurd (hv.below (Table.mem_of_find? ht')) (Nat.lt_irrefl _)
  · exact fun h => ⟨_, hkept h, rfl, rfl⟩
  · intro key id hmem
    obtain hold | rfl := Table.mem_put hmem
    · exact .inl hold
    · exact .inr ⟨Nat.le_refl _, t, hnew, hout, hres⟩

theorem calm_put (workflow source : Value) : Calm F (put workflow source : SessionM κ Value) := by
  refine (Calm.stepwise.promptFor workflow).bind fun prompt s hv => ?_
  rw [run_bind_ok (run_get s)]
  obtain ⟨hkeeps, hreply⟩ := keeps_request (F := F) "POST" "prompt" none (some (.dict [
    ("prompt", prompt.toValue),
    ("extra_data", extraData s.saveSource.truthy source),
    ("client_id", clientId)])) hv
  refine keeps_bind hkeeps fun r s₁ hr hv₁ => ?_
  rw [hr] at hreply
  split
  · refine keeps_bind (calm_check _ s₁ hv₁) fun answer s₂ hanswer hv₂ => ?_
    refine keeps_bind (calm_check _ s₂ hv₂) fun promptId s₃ hprompt hv₃ => ?_
    refine keeps_bind (calm_check _ s₃ hv₃) fun number s₄ _ hv₄ => ?_
    have htext : ∃ p, promptId = .str p :=
      hreply r rfl answer promptId (Response.json_of_body (of_run_check hanswer)) (of_run_check hprompt)
    exact keeps_enqueue htext number prompt.ids hv₄
  · exact ((calm_printLine _).bind fun _ => calm_pure _) s₁ hv₁

theorem calm_newFlow (f : Flow) : Calm F (newFlow f : SessionM κ Nat) := by
  refine calm_freshId.bind fun id => Calm.bind ?_ fun _ => calm_pure _
  exact calm_modify fun _ hv => .of_eq hv rfl rfl rfl rfl rfl

theorem calm_checkHook (operation : String) (failure : Fault) :
    Calm F (checkHook operation failure : SessionM κ Unit) := by
  refine calm_get.bind fun s => ?_
  split
  · exact calm_pure _
  · exact calm_get.bind fun _ => calm_ite (calm_throw _) (calm_pure _)
  · exact calm_throw _

theorem calm_setHook (hook : Option Nat) :
    Calm F (modify fun s => { s with hook := hook } : SessionM κ PUnit) :=
  calm_modify fun _ hv => .of_eq hv rfl rfl rfl rfl rfl

theorem calm_enterFlow (id : Nat) : Calm F (enterFlow id : SessionM κ Unit) := by
  refine (calm_setFlow _ _).bind fun _ => (calm_checkHook _ _).bind fun _ => calm_get.bind fun s => ?_
  dsimp only
  split
  · exact (calm_throw _).bind fun _ => calm_setHook _
  · exact calm_setHook _

theorem calm_leaveFlow (id : Nat) (source : Value) (failed : Bool) :
    Calm F (leaveFlow id source failed : SessionM κ Unit) := by
  refine ((calm_checkHook _ _).bind fun _ => calm_setHook _).bind fun _ =>
    (Calm.stepwise.flow id).bind fun f => ?_
  split
  · refine (Calm.stepwise.queueFlow calm_print calm_request (calm_put _ source) calm_setFlow
      calm_setOutputTask).bind fun v => ?_
    split
    · split
      · exact (Calm.stepwise.finished _).bind fun _ => calm_pure _
      · exact calm_pure _
    · exact calm_pure _
  · exact calm_pure _

section Listeners

variable {run : Runner κ}

theorem calm_runEmptyCode (hrun : run.Calm) (code : EmptyCode κ) :
    Calm F (runEmptyCode run code) := by
  have hbody : ∀ flow, Calm F (run code.body flow) := fun flow => (hrun code.body flow).mono nofun
  unfold runEmptyCode
  split
  · exact hbody none
  · refine (calm_newFlow _).bind fun id => (calm_enterFlow id).bind fun _ => ?_
    refine Calm.tryCatch ?_ fun e => ?_
    · exact (hbody _).bind fun v => (calm_leaveFlow _ _ _).bind fun _ => calm_pure _
    · exact (calm_leaveFlow _ _ _).bind fun _ => (calm_warn _).bind fun _ => calm_pure _
  · exact calm_throw _

theorem calm_callWhenEmpty (hrun : run.Calm) (remaining : Value) :
    Calm F (callWhenEmpty run remaining) := by
  unfold callWhenEmpty
  split
  · refine calm_get.bind fun s => ?_
    split
    · exact calm_pure _
    · refine Calm.tryCatch ((calm_runEmptyCode hrun _).bind fun v => ?_) fun e => calm_warn _
      split
      · exact calm_setQueue fun _ => rfl
      · exact calm_pure _
  · exact calm_pure _

theorem calm_tellAll (hrun : run.Calm) (listeners : List Listener) :
    Calm F (tellAll run listeners) := by
  induction listeners with
  | nil => exact calm_pure _
  | cons listener rest ih =>
    refine calm_get.bind fun s => Calm.bind ?_ fun _ => ih
    cases listener with
    | emptyCaller => exact calm_callWhenEmpty hrun _
    | observer name => exact calm_emit _

theorem calm_notify (hrun : run.Calm) : Calm F (notify run) :=
  calm_get.bind fun _ => (calm_tellAll hrun _).bind fun _ => calm_get.bind fun _ =>
    calm_tellAll hrun _

end Listeners

theorem calm_history (promptId : Value) :
    Calm F (history promptId : SessionM κ (Option Value)) := by
  refine (calm_request _ _ _ _).bind fun r => ?_
  split
  · refine (calm_check _).bind fun body => ?_
    split
    · dsimp only
      split
      · exact (calm_throw _).bind fun _ => calm_pure _
      · exact calm_pure _
    · exact calm_throw _
  · exact (calm_printLine _).bind fun _ => calm_pure _

theorem calm_rememberedOutputs (promptId : Value) :
    Calm F (rememberedOutputs promptId : SessionM κ Value) := by
  refine (calm_history promptId).bind fun h => ?_
  split
  · exact calm_pure _
  · exact calm_pure _
  · exact calm_check _

section Showing

theorem calm_resultFor (id : Nat) (output : Value) :
    Calm F (resultFor id output : SessionM κ Value) := by
  unfold resultFor
  split
  · refine (Calm.stepwise.task id).bind fun t => ?_
    split
    · exact calm_pure _
    · split
      · exact calm_pure _
      · refine (Calm.stepwise.finished id).bind fun outputs => ?_
        split
        · exact calm_pure _
        · exact calm_pure _
  · exact calm_throw _

theorem calm_outputTask (output : Value) : Calm F (outputTask output : SessionM κ Value) := by
  unfold outputTask
  split
  · exact calm_get.bind fun _ => calm_pure _
  · exact (Calm.stepwise.flow _).bind fun _ => calm_pure _
  · exact calm_throw _

theorem calm_ensureTask (output source : Value) :
    Calm F (ensureTask output source : SessionM κ Value) := by
  refine (calm_outputTask _).bind fun known => ?_
  split
  · exact (calm_put _ _).bind fun t => (Calm.stepwise.setOutputTasks (fun _ => calm_setFlow _ _)
      (fun _ => calm_setOutputTask _ _) _).bind fun _ => calm_pure _
  · exact calm_pure _

theorem calm_resultIn (t output : Value) : Calm F (resultIn t output : SessionM κ Value) := by
  unfold resultIn
  split
  · exact calm_resultFor _ _
  · exact calm_throw _

theorem calm_waitOutput (output source : Value) :
    Calm F (waitOutput output source : SessionM κ Value) := by
  unfold waitOutput
  split
  · exact (calm_ensureTask _ _).bind fun t => calm_resultIn _ _
  · exact calm_throw _

theorem calm_fetchImages (output : Value) :
    Calm F (fetchImages output : SessionM κ (List Value)) := by
  refine (calm_check _).bind fun images => (calm_check _).bind fun items => Calm.stepwise.mapM (fun v => ?_) _
  refine (calm_request _ _ _ _).bind fun r => ?_
  split
  · split
    · exact calm_pure _
    · exact calm_throw _
  · exact (calm_printLine _).bind fun _ => calm_pure _

theorem calm_flattenLeaf (v : Value) : Calm F (flattenLeaf v : SessionM κ (List Value)) := by
  unfold flattenLeaf
  split
  · exact calm_pure _
  · exact calm_fetchImages _
  · split
    · split
      · exact calm_pure _
      · exact calm_throw _
    · split
      · exact calm_pure _
      · split
        · exact calm_pure _
        · exact calm_throw _
      · exact calm_throw _
      · exact calm_throw _

theorem calm_flattenAll (vs : List Value) :
    Calm F (flattenAll vs : SessionM κ (List Value)) := by
  refine flattenAll.induct (fun v => Calm F (flatten v : SessionM κ (List Value)))
    (fun vs => Calm F (flattenAll vs : SessionM κ (List Value))) ?list ?tuple ?output ?leaf ?nil
    ?cons vs
  case list | tuple =>
    intro items ih
    rw [flatten]
    exact ih
  case output =>
    intro object typeName info call classType inputs slot
    rw [flatten]
    exact (calm_waitOutput _ _).bind fun result => calm_flattenLeaf _
  case leaf =>
    intro v hlist htuple houtput
    rw [flatten.eq_4 v hlist htuple houtput]
    exact calm_flattenLeaf _
  case nil =>
    rw [flattenAll]
    exact calm_pure _
  case cons =>
    intro v rest ihv ihrest
    rw [flattenAll]
    exact ihv.bind fun _ => ihrest.bind fun _ => calm_pure _

theorem calm_needNotebook : Calm F (needNotebook : SessionM κ Unit) := by
  refine calm_get.bind fun s => ?_
  split
  · exact calm_throw _
  · exact calm_pure _

theorem calm_display (objects : List Widget) (options : List (String × Value)) :
    Calm F (display objects options : SessionM κ Unit) := calm_emit _

theorem calm_showImages (images : List Value) (titles : Value) (l : GridLayout) :
    Calm F (showImages images titles l : SessionM κ Unit) := by
  unfold showImages
  split
  · exact calm_pure _
  · refine calm_needNotebook.bind fun _ => ?_
    dsimp only
    split
    · exact calm_display _ _
    · split
      · exact calm_display _ _
      · exact (calm_check _).bind fun widget => calm_display _ _

theorem calm_clearDisplay : Calm F (clearDisplay : SessionM κ Unit) :=
  calm_needNotebook.bind fun _ => calm_display _ _

theorem calm_showNewResult (output : Value) : Calm F (showNewResult output : SessionM κ Unit) := by
  refine calm_clearDisplay.bind fun _ => ?_
  unfold showResult
  split
  · exact (calm_fetchImages _).bind fun images => calm_showImages _ _ _
  · exact calm_display _ _

theorem calm_showOutputs (outputs : List (Value × Value)) :
    Calm F (showOutputs outputs : SessionM κ Unit) := by
  refine calm_needNotebook.bind fun _ => (calm_check _).bind fun sorted => ?_
  refine calm_ite (calm_clearDisplay.bind fun _ => ?_) ?_
  all_goals
    refine calm_ite ?_ ?_
    · refine (calm_flattenAll _).bind fun images => (calm_showImages _ _ _).bind fun _ => ?_
      exact calm_ite (calm_display _ _) (calm_pure _)
    · exact calm_ite (calm_display _ _) (calm_pure _)

theorem calm_printRemaining : Calm F (printRemaining : SessionM κ Unit) :=
  calm_get.bind fun _ => calm_printLine _

end Showing

section Messages

theorem calm_openBar (value total : Value) : Calm F (openBar value total : SessionM κ Unit) :=
  (calm_emit _).bind fun _ => calm_modify fun _ hv => .of_eq hv rfl rfl rfl rfl rfl

theorem calm_setBar (bar : Option Value) : Calm F (setBar bar : SessionM κ Unit) :=
  calm_modify fun _ hv => .of_eq hv rfl rfl rfl rfl rfl

theorem calm_moveBar (reached value : Value) : Calm F (moveBar reached value : SessionM κ Unit) :=
  (calm_check _).bind fun _ => (calm_emit _).bind fun _ => (calm_check _).bind fun _ =>
    calm_setBar _

theorem calm_advanceBar (value total : Value) :
    Calm F (advanceBar value total : SessionM κ Unit) := by
  have hfull : Calm F (do
      if value == total then
        closeBar
        setBar none : SessionM κ Unit) :=
    calm_ite ((calm_emit _).bind fun _ => calm_setBar _) (calm_pure _)
  refine calm_get.bind fun s => ?_
  cases s.bar with
  | none => exact hfull
  | some reached => exact (calm_moveBar _ _).bind fun _ => hfull

theorem calm_showProgress (value total : Value) :
    Calm F (showProgress value total : SessionM κ Unit) := by
  unfold showProgress
  refine calm_ite (calm_get.bind fun s => ?_) (calm_get.bind fun s => ?_)
  · exact calm_ite ((calm_emit _).bind fun _ => calm_openBar _ _) (calm_openBar _ _)
  · exact calm_ite ((calm_openBar _ _).bind fun _ => calm_advanceBar _ _) (calm_advanceBar _ _)

theorem calm_receiveProgress (st : Watching) (content : Value) :
    Calm F (receiveProgress st content : SessionM κ Watching) :=
  (calm_check _).bind fun _ => (calm_check _).bind fun _ => (calm_check _).bind fun _ =>
    (calm_showProgress _ _).bind fun _ => calm_pure _

theorem calm_receiveStatus {run : Runner κ} (hrun : run.Calm) (st : Watching) (content : Value) :
    Calm F (receiveStatus run st content) := by
  refine (calm_check _).bind fun data => (calm_check _).bind fun status =>
    (calm_check _).bind fun info => (calm_check _).bind fun remaining => calm_get.bind fun s => ?_
  have hprint : Calm F (do printRemaining; return st : SessionM κ Watching) :=
    calm_printRemaining.bind fun _ => calm_pure _
  refine calm_ite (Calm.bind ?_ fun _ => ?_) (calm_pure _)
  · exact calm_setQueue fun _ => rfl
  · exact calm_ite ((calm_notify hrun).bind fun _ => hprint) hprint

theorem calm_taskOf (promptId : Value) :
    Calm F (taskOf promptId : SessionM κ (Option Nat)) :=
  calm_ite ((calm_throw _).bind fun _ => calm_get.bind fun _ => calm_pure _)
    (calm_get.bind fun _ => calm_pure _)

theorem calm_taskValue (id : Nat) : Calm F (taskValue id : SessionM κ Value) :=
  (Calm.stepwise.task id).bind fun _ => calm_pure _

theorem calm_tellPreview (id : Nat) (node image : Value) :
    Calm F (tellPreview id node image : SessionM κ Unit) := by
  refine (calm_taskValue id).bind fun v => (Calm.stepwise.task id).bind fun t => ?_
  refine (Calm.stepwise.forM (fun name => calm_emit _) _).bind fun _ => calm_get.bind fun s => ?_
  exact calm_ite (calm_needNotebook.bind fun _ => calm_display _ _) (calm_pure _)

theorem calm_receivePreview (st : Watching) (e : BinaryEvent) :
    Calm F (receivePreview st e : SessionM κ Unit) := by
  unfold receivePreview
  split
  · split
    · exact calm_warn _
    · refine (calm_taskOf _).bind fun found => ?_
      split
      · exact calm_throw _
      · exact (calm_check _).bind fun node => (Calm.stepwise.forM (fun w => calm_warn w) _).bind fun _ =>
          (calm_check _).bind fun image => calm_tellPreview _ _ _
  · exact calm_throw _

theorem calm_receiveBinary (st : Watching) (b : Blob) :
    Calm F (receiveBinary st b : SessionM κ Watching) :=
  (calm_check _).bind fun _ => (Calm.stepwise.forM (fun w => calm_warn w) _).bind fun _ =>
    calm_ite ((calm_receivePreview _ _).bind fun _ => calm_pure _) (calm_pure _)

theorem calm_connect : Calm F (connect : SessionM κ Unit) :=
  calm_get.bind fun _ => (calm_mark _).bind fun _ => calm_setQueue fun _ => rfl

end Messages

end Calm

end SessionM

end Flowscript
