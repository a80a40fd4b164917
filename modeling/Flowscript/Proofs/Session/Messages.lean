import Flowscript.Proofs.Session.Run

/-!
# What messages do to tasks

A message that brings the output of a node records it for the task of its prompt. A message that
tells that a prompt is done takes its task from the queue, and the others too if no task is left to
run. No other message finishes a task or records an output.
-/

namespace Flowscript

open List

def updated (recorded : List (Value × Value)) (outputs : List (String × Value)) :
    List (Value × Value) :=
  outputs.foldl (fun acc (k, v) => Table.put (Value.str k) v acc) recorded

namespace Session

variable {κ : Type}

def recordedFor (s : Session κ) (id : Nat) : List (Value × Value) :=
  ((Table.find? id s.tasks).map TaskState.newOutputs).getD []

/-- The entries of the queue that leave it with a prompt because no task is left to run. -/
def swept (s : Session κ) (promptId : Value) : List (Value × Nat) :=
  if s.queue.remaining == .int 0 then Table.erase promptId s.queue.tasks else []

/-- The task that is met last when a prompt leaves the queue. -/
def lastMet (s : Session κ) (promptId : Value) : Option Nat :=
  ((s.swept promptId).getLast?.map Prod.snd).or (Table.find? promptId s.queue.tasks)

def dequeued (s : Session κ) (promptId : Value) (trace : Trace) : Session κ :=
  { s with
    trace := trace
    queue := { s.queue with
      tasks := if s.queue.remaining == .int 0 then [] else Table.erase promptId s.queue.tasks }
    jobs := s.jobs ++ (s.swept promptId).map fun entry => .finish entry.2 (s.recordedFor entry.2) }

variable {F : Nat → Prop} {s : Session κ} {promptId : Value} {trace : Trace} {id : Nat}

theorem dequeued_tasks_sublist (s : Session κ) (promptId : Value) (trace : Trace) :
    List.Sublist (s.dequeued promptId trace).queue.tasks s.queue.tasks := by
  unfold dequeued
  dsimp only
  split
  · exact nil_sublist _
  · exact filter_sublist

theorem swept_subset : ∀ entry ∈ s.swept promptId, entry ∈ s.queue.tasks := by
  intro entry hentry
  unfold swept at hentry
  split at hentry
  · exact mem_of_mem_filter hentry
  · cases hentry

theorem left_of_swept (trace : Trace) {entry : Value × Nat} (h : entry ∈ s.swept promptId) :
    s.Registered entry.2 ∧ ¬ (s.dequeued promptId trace).Registered entry.2 := by
  refine ⟨mem_map_of_mem (swept_subset entry h), ?_⟩
  unfold swept at h
  split at h
  · rename_i hr
    simp [Registered, dequeued, hr]
  · cases h

theorem left_of_find? (trace : Trace) (hv : s.Valid)
    (h : Table.find? promptId s.queue.tasks = some id) :
    s.Registered id ∧ ¬ (s.dequeued promptId trace).Registered id := by
  obtain ⟨k, hmem, hk⟩ := Table.exists_of_find? h
  refine ⟨mem_map_of_mem hmem, fun hleft => ?_⟩
  obtain ⟨⟨k', id'⟩, hmem', rfl⟩ := mem_map.1 hleft
  have hk' : k' = k := by
    have hin := (dequeued_tasks_sublist s promptId trace).subset hmem'
    exact (Prod.mk.inj (inj_on_of_nodup_map hv.ids_nodup hin hmem rfl)).1
  unfold dequeued at hmem'
  dsimp only at hmem'
  split at hmem'
  · cases hmem'
  · have hne := (mem_filter.1 hmem').2
    rw [hk'] at hne
    simp [hk] at hne

theorem left_of_lastMet (trace : Trace) (hv : s.Valid) (h : s.lastMet promptId = some id) :
    s.Registered id ∧ ¬ (s.dequeued promptId trace).Registered id := by
  unfold lastMet at h
  cases hlast : (s.swept promptId).getLast? with
  | some entry =>
    rw [hlast] at h
    obtain rfl : entry.2 = id := Option.some.inj h
    exact left_of_swept trace (mem_of_getLast? hlast)
  | none =>
    rw [hlast] at h
    exact left_of_find? trace hv h

theorem keeps_dequeued (hv : s.Valid) (hF : ∀ entry ∈ s.swept promptId, F entry.2) :
    Keeps F s (s.dequeued promptId trace) where
  valid := by
    have hsub := dequeued_tasks_sublist s promptId trace
    refine ⟨hv.below, fun hmem => hv.known (hsub.subset hmem), fun key hkey => ?_,
      hv.keys_nodup.sublist (hsub.map _), hv.ids_nodup.sublist (hsub.map _), hv.answers⟩
    exact hv.text key ((hsub.map _).subset hkey)
  fresh_le := Nat.le_refl _
  jobs := by
    refine ⟨_, rfl, fun id outputs hmem => ?_⟩
    obtain ⟨entry, hentry, heq⟩ := mem_map.1 hmem
    rw [← (Job.finish.inj heq).1]
    exact hF entry hentry
  recorded := fun ht => ⟨_, ht, rfl, rfl⟩
  registered := fun hmem => .inl ((dequeued_tasks_sublist s promptId trace).subset hmem)

end Session

namespace SessionM

variable {κ : Type} {id : Nat} {s : Session κ} {data promptId : Value}

theorem run_printLine (line : String) (s : Session κ) :
    ∃ trace, (printLine line).run s = (.ok (), { s with trace := trace }) := ⟨_, rfl⟩

theorem run_finishTask {t : TaskState} (h : Table.find? id s.tasks = some t)
    (outputs : List (String × Value)) :
    (finishTask id outputs).run s = (.ok (updated t.newOutputs outputs),
      { s with jobs := s.jobs ++ [.finish id (updated t.newOutputs outputs)] }) := by
  unfold finishTask
  rw [run_bind_ok (by rw [run_task, h])]
  rfl

theorem run_abandonTasks (entries : List (Value × Nat)) (last : Option Nat) (s : Session κ)
    (hknown : ∀ entry ∈ entries, ∃ t, Table.find? entry.2 s.tasks = some t) :
    ∃ trace, (abandonTasks entries last).run s =
      (.ok ((entries.getLast?.map Prod.snd).or last), { s with
        trace := trace
        jobs := s.jobs ++ entries.map fun entry => .finish entry.2 (s.recordedFor entry.2) }) := by
  induction entries generalizing s last with
  | nil => exact ⟨s.trace, by simp [abandonTasks]; rfl⟩
  | cons entry rest ih =>
    obtain ⟨key, id⟩ := entry
    obtain ⟨t, ht⟩ : ∃ t, Table.find? id s.tasks = some t := hknown (key, id) mem_cons_self
    have hrecorded : s.recordedFor id = t.newOutputs := by simp [Session.recordedFor, ht]
    obtain ⟨trace₁, hprint⟩ := run_printLine ("ComfyScript: The queue is empty but " ++
      (Value.task id t.number t.promptId).text ++ " has not been executed") s
    obtain ⟨trace, hrest⟩ := ih (some id)
      { s with trace := trace₁, jobs := s.jobs ++ [.finish id (updated t.newOutputs [])] }
      fun entry hentry => hknown entry (mem_cons_of_mem _ hentry)
    refine ⟨trace, ?_⟩
    unfold abandonTasks
    rw [run_bind_ok (by rw [run_taskValue, ht]), run_bind_ok hprint,
      run_bind_ok (run_finishTask (s := { s with trace := trace₁ }) ht []), hrest]
    have hlast : ((key, id) :: rest).getLast? = some (rest.getLast?.getD (key, id)) :=
      getLast?_cons
    have hjobs : s.jobs ++ ((key, id) :: rest).map
        (fun entry => Job.finish entry.2 (s.recordedFor entry.2)) =
        (s.jobs ++ [.finish id (updated t.newOutputs [])]) ++
          rest.map fun entry => .finish entry.2 (s.recordedFor entry.2) := by
      simp [hrecorded, updated]
    rw [hlast, hjobs]
    cases rest.getLast? <;> rfl

theorem run_dequeue (hv : s.Valid) (hp : promptId.hashable) :
    ∃ trace, (dequeue promptId).run s =
      (.ok (s.lastMet promptId), s.dequeued promptId trace) := by
  have htask : (taskOf promptId).run s = (.ok (Table.find? promptId s.queue.tasks), s) := by
    unfold taskOf
    simp only [hp, Bool.not_true, Bool.false_eq_true, if_false]
    rfl
  unfold dequeue Session.lastMet Session.dequeued Session.swept
  rw [run_bind_ok htask, run_bind_ok (run_setQueue _ _), run_bind_ok (run_get _)]
  cases hr : (s.queue.remaining == .int 0)
  · refine ⟨s.trace, ?_⟩
    simp only [Bool.false_eq_true, if_false, map_nil, append_nil]
    rfl
  · have hknown : ∀ entry ∈ Table.erase promptId s.queue.tasks,
        ∃ t, Table.find? entry.2 s.tasks = some t :=
      fun entry hentry => hv.known (mem_of_mem_filter hentry)
    obtain ⟨trace, habandon⟩ := run_abandonTasks (Table.erase promptId s.queue.tasks)
      (Table.find? promptId s.queue.tasks) { s with queue := { s.queue with
        tasks := Table.erase promptId s.queue.tasks } } hknown
    refine ⟨trace, ?_⟩
    simp only [if_true]
    rw [run_bind_ok (run_get _), run_bind_ok habandon, run_bind_ok (run_setQueue _ _)]
    rfl

theorem run_tryCatch_ok {x : SessionM κ Unit} {handle : Fault → SessionM κ Unit}
    (hh : ∀ e s, ∃ s', (handle e).run s = (.ok (), s')) (s : Session κ) :
    ∃ s', (tryCatch x handle).run s = (.ok (), s') := by
  rw [run_tryCatch]
  split
  · exact ⟨_, rfl⟩
  · exact hh _ _

theorem run_notify (run : Runner κ) (s : Session κ) : ∃ s', (notify run).run s = (.ok (), s') := by
  have htell : ∀ l remaining (s : Session κ), ∃ s', (tell run remaining l).run s = (.ok (), s') := by
    intro l remaining s
    cases l with
    | observer name => exact ⟨_, rfl⟩
    | emptyCaller =>
      unfold tell callWhenEmpty
      dsimp only
      split
      · rw [run_bind_ok (run_get s)]
        split
        · exact ⟨_, rfl⟩
        · exact run_tryCatch_ok (fun e s => ⟨_, rfl⟩) s
      · exact ⟨_, rfl⟩
  have hall : ∀ ls (s : Session κ), ∃ s', (tellAll run ls).run s = (.ok (), s') := by
    intro ls
    induction ls with
    | nil => exact fun s => ⟨s, rfl⟩
    | cons l rest ih =>
      intro s
      obtain ⟨s', hs'⟩ := htell l s.queue.remaining s
      unfold tellAll
      rw [run_bind_ok (run_get s), run_bind_ok hs']
      exact ih s'
  obtain ⟨s₁, hs₁⟩ := hall (s.queue.listeners.take 1) s
  unfold notify
  rw [run_bind_ok (run_get s), run_bind_ok hs₁, run_bind_ok (run_get s₁)]
  exact hall _ _

variable {F : Nat → Prop} {run : Runner κ}

/-- A prompt leaves the queue and the listeners are told. -/
theorem exists_notified (hrun : run.Calm) (hv : s.Valid) (hp : promptId.hashable) :
    ∃ trace s', (dequeue promptId).run s = (.ok (s.lastMet promptId), s.dequeued promptId trace) ∧
      (notify run).run (s.dequeued promptId trace) = (.ok (), s') ∧
      Session.Keeps (fun id => s.Registered id ∧ ¬ (s.dequeued promptId trace).Registered id) s
        (s.dequeued promptId trace) ∧
      Session.Keeps (fun _ => False) (s.dequeued promptId trace) s' := by
  obtain ⟨trace, hdequeue⟩ := run_dequeue hv hp
  obtain ⟨s', hnotify⟩ := run_notify run (s.dequeued promptId trace)
  let F : Nat → Prop := fun id => s.Registered id ∧ ¬ (s.dequeued promptId trace).Registered id
  have hdequeued : Session.Keeps F s (s.dequeued promptId trace) :=
    Session.keeps_dequeued hv fun entry hentry => Session.left_of_swept trace hentry
  have hnotified := calm_notify (F := fun _ => False) hrun _ hdequeued.valid
  rw [hnotify] at hnotified
  exact ⟨trace, s', hdequeue, hnotify, hdequeued, hnotified⟩

theorem calm_finishTask (hid : F id) (outputs : List (String × Value)) :
    Calm F (finishTask id outputs : SessionM κ (List (Value × Value))) := by
  intro s hv
  cases ht : Table.find? id s.tasks with
  | none =>
    unfold finishTask
    rw [run_bind_error (by rw [run_task, ht])]
    exact .refl hv
  | some t =>
    rw [run_finishTask ht]
    refine { Session.Keeps.refl (F := F) hv with
      valid := ⟨hv.below, hv.known, hv.text, hv.keys_nodup, hv.ids_nodup, hv.answers⟩
      jobs := ⟨_, rfl, fun id' outputs' hmem => ?_⟩ }
    obtain ⟨rfl, -⟩ := Job.finish.inj (mem_singleton.1 hmem)
    exact hid

theorem calm_setOutputs (hid : F id) (outputs wanted : Value) :
    Calm F (setOutputs id outputs wanted : SessionM κ Unit) := by
  unfold setOutputs
  split
  · refine (calm_finishTask hid _).bind fun all => ?_
    exact calm_ite (calm_showOutputs _) (calm_pure _)
  · exact calm_throw _

theorem calm_finishWith (promptId : Value) {last : Option Nat} (hlast : ∀ id, last = some id → F id) :
    Calm F (finishWith promptId last : SessionM κ Unit) := by
  have hprint : Calm F (do
      if (← get).queue.showTask.truthy then printRemaining : SessionM κ Unit) :=
    calm_get.bind fun s => calm_ite calm_printRemaining (calm_pure _)
  refine (calm_rememberedOutputs promptId).bind fun outputs => ?_
  cases last with
  | none => exact (calm_throw _).bind fun _ => hprint
  | some id => exact calm_get.bind fun s => (calm_setOutputs (hlast id rfl) _ _).bind fun _ => hprint

theorem run_receiveDone_error (st : Watching) (s : Session κ)
    (h : ∀ promptId, data.entry "prompt_id" = .ok promptId → promptId.hashable = false) :
    ((receiveDone run st data).run s).2 = s := by
  unfold receiveDone
  cases hp : data.entry "prompt_id" with
  | error e => rfl
  | ok promptId =>
    have htask : (taskOf promptId).run s = (.error .wrongKind, s) := by
      unfold taskOf
      simp only [h promptId hp, Bool.not_false, if_true]
      rfl
    have hdequeue : (dequeue promptId).run s = (.error .wrongKind, s) := run_bind_error htask
    rw [run_bind_ok (run_check_ok promptId s), run_bind_error hdequeue]

theorem run_receiveDone (st : Watching) {s₁ s₂ : Session κ} {last : Option Nat}
    (hp : data.entry "prompt_id" = .ok promptId) (hdequeue : (dequeue promptId).run s = (.ok last, s₁))
    (hnotify : (notify run).run s₁ = (.ok (), s₂)) :
    ((receiveDone run st data).run s).2 = ((finishWith promptId last).run s₂).2 := by
  unfold receiveDone
  rw [hp, run_bind_ok (run_check_ok promptId s), run_bind_ok hdequeue, run_bind_ok hnotify,
    snd_run_bind_pure]

theorem keeps_receiveDone_of_hashable (hrun : run.Calm) (st : Watching) (hv : s.Valid)
    (hp : data.entry "prompt_id" = .ok promptId) (hh : promptId.hashable = true) :
    ∃ trace, Session.Keeps
        (fun id => s.Registered id ∧ ¬ (s.dequeued promptId trace).Registered id) s
        ((receiveDone run st data).run s).2 ∧
      ∀ id, s.Registered id ∧ ¬ (s.dequeued promptId trace).Registered id →
        ((receiveDone run st data).run s).2.Gone id := by
  obtain ⟨trace, s₂, hdequeue, hnotify, hdequeued, hnotified⟩ := exists_notified hrun hv hh
  rw [run_receiveDone st hp hdequeue hnotify]
  have hlast (id : Nat) : s.lastMet promptId = some id →
      s.Registered id ∧ ¬ (s.dequeued promptId trace).Registered id := Session.left_of_lastMet trace hv
  have hfinished := (hnotified.mono fun _ => False.elim).trans
    (calm_finishWith promptId hlast s₂ hnotified.valid)
  refine ⟨trace, hdequeued.trans hfinished, fun id hid => ?_⟩
  obtain ⟨t, ht⟩ := hv.find?_of_registered hid.1
  obtain ⟨t', ht', -⟩ := (hdequeued.trans hfinished).recorded ht
  exact ⟨⟨t', ht'⟩, hfinished.not_registered (hv.lt_of_find? ht) hid.2⟩

theorem keeps_receiveDone (hrun : run.Calm) (st : Watching) (data : Value) (hv : s.Valid) :
    ∃ F : Nat → Prop, Session.Keeps F s ((receiveDone run st data).run s).2 ∧
      ∀ id, F id → s.Registered id ∧ ((receiveDone run st data).run s).2.Gone id := by
  by_cases h : ∃ promptId, data.entry "prompt_id" = .ok promptId ∧ promptId.hashable = true
  · obtain ⟨promptId, hp, hh⟩ := h
    obtain ⟨trace, hkeeps, hgone⟩ := keeps_receiveDone_of_hashable hrun st hv hp hh
    exact ⟨_, hkeeps, fun id hid => ⟨hid.1, hgone id hid⟩⟩
  · rw [run_receiveDone_error st s fun promptId hp => by simpa using fun hh => h ⟨promptId, hp, hh⟩]
    exact ⟨fun _ => False, .refl hv, nofun⟩

/-- A step that finishes only tasks that it takes from the queue. -/
def Sound {α : Type} (x : SessionM κ α) : Prop :=
  ∀ s : Session κ, s.Valid → ∃ queued, s.Advances (x.run s).2 queued

section Sound

variable {α β : Type}

theorem Calm.sound {x : SessionM κ α} (h : Calm (fun _ => False) x) : Sound x :=
  fun s hv => (h s hv).advances nofun

theorem Sound.bind {x : SessionM κ α} {f : α → SessionM κ β} (hx : Sound x)
    (hf : ∀ a, Sound (f a)) : Sound (x >>= f) := by
  intro s hv
  obtain ⟨queued, hxs⟩ := hx s hv
  rcases h : x.run s with ⟨e | a, s'⟩ <;> rw [h] at hxs
  · exact ⟨_, by rw [run_bind_error h]; exact hxs⟩
  · obtain ⟨queued', hfs⟩ := hf a s' hxs.valid
    exact ⟨_, by rw [run_bind_ok h]; exact hxs.trans hfs⟩

theorem sound_receiveDone (hrun : run.Calm) (st : Watching) (data : Value) :
    Sound (receiveDone run st data) := by
  intro s hv
  obtain ⟨F, hkeeps, hF⟩ := keeps_receiveDone hrun st data hv
  exact hkeeps.advances fun id hid => ⟨.inl (hF id hid).1, (hF id hid).2⟩

theorem sound_setOutput (id : Nat) (node output wanted : Value) :
    Sound (setOutput id node output wanted : SessionM κ Unit) := by
  have hset : Sound (do
      setTask id fun t => { t with newOutputs := Table.put node output t.newOutputs }
      if wanted.truthy then showNewResult output : SessionM κ Unit) := by
    refine Sound.bind (fun s hv => ⟨[], Session.advances_record hv id _ fun _ => rfl⟩) fun _ => ?_
    exact (calm_ite (calm_showNewResult _) (calm_pure _)).sound
  unfold setOutput
  dsimp only
  split
  · exact (calm_throw _).sound.bind fun _ => hset
  · exact hset

theorem sound_receiveOutput (st : Watching) (content : Value) :
    Sound (receiveOutput st content : SessionM κ Watching) := by
  refine (calm_check _).sound.bind fun data => (calm_check _).sound.bind fun promptId =>
    (calm_taskOf _).sound.bind fun found => ?_
  cases found with
  | none => exact (calm_pure _).sound
  | some id =>
    refine (calm_check _).sound.bind fun node => (calm_check _).sound.bind fun output =>
      calm_get.sound.bind fun s => (sound_setOutput _ _ _ _).bind fun _ => ?_
    refine (calm_get.bind fun s => calm_ite ?_ (calm_pure _)).sound
    exact calm_printRemaining.bind fun _ => calm_pure _

theorem sound_receiveText (hrun : run.Calm) (st : Watching) (content : Value) :
    Sound (receiveText run st content) := by
  refine (calm_check _).sound.bind fun kind => ?_
  split
  · exact (calm_receiveStatus hrun st content).sound
  · exact (calm_pure _).sound
  · refine (calm_check _).sound.bind fun data => (calm_check _).sound.bind fun node => ?_
    split
    · exact sound_receiveDone hrun st data
    · exact (calm_pure _).sound
  · exact sound_receiveOutput st content
  · exact (calm_receiveProgress st content).sound
  · exact (calm_pure _).sound

theorem sound_resume (st : Option Watching) : Sound (resume st : SessionM κ Watching) := by
  cases st with
  | some st => exact (calm_pure _).sound
  | none => exact (calm_connect.bind fun _ => calm_pure _).sound

theorem sound_receive (hrun : run.Calm) (st : Watching) (m : Message) :
    Sound (receive run st m) := by
  unfold receive
  split
  · exact (sound_receiveText hrun st _).bind fun _ => (calm_pure _).sound
  · exact ((calm_receiveBinary st _).bind fun _ => calm_pure _).sound
  · exact (calm_pure _).sound
  · exact (calm_pure _).sound
  · exact (calm_throw _).sound

theorem keeps_receiveNext (st : Option Watching) (m : Message) {s₁ : Session κ}
    (hresume : (resume st).run s = (.ok (st.getD .start), s₁))
    (hv : ((receive run (st.getD .start) m).run s₁).2.Valid) :
    Session.Keeps F ((receive run (st.getD .start) m).run s₁).2
      ((receiveNext run st m).run s).2 := by
  have htail : ∀ st', Calm F (match st' with
      | some st => return some st
      | none => do
        emit (.notice "sleep" [.int 5])
        return none : SessionM κ (Option Watching)) := by
    intro st'
    cases st' with
    | some st' => exact calm_pure _
    | none => exact (calm_emit _).bind fun _ => calm_pure _
  unfold receiveNext receiveOrFail
  rw [run_bind_ok hresume, run_bind, run_tryCatch]
  rcases hreceive : (receive run (st.getD .start) m).run s₁ with ⟨e | st', s₂⟩ <;> rw [hreceive] at hv
  · dsimp only
    rw [← run_bind]
    exact ((calm_printLine _).bind fun _ => calm_pure _).bind htail s₂ hv
  · exact htail st' s₂ hv

theorem sound_receiveNext (hrun : run.Calm) (st : Option Watching) (m : Message) :
    Sound (receiveNext run st m) := by
  intro s hv
  obtain ⟨queued, hsound⟩ := sound_resume st s hv
  obtain ⟨trace, hresume⟩ := run_resume st s
  rw [hresume] at hsound
  obtain ⟨queued', hsound'⟩ := sound_receive hrun (st.getD .start) m _ hsound.valid
  obtain ⟨queued'', hsound''⟩ :=
    (keeps_receiveNext (F := fun _ => False) st m hresume hsound'.valid).advances nofun
  exact ⟨_, hsound.trans (hsound'.trans hsound'')⟩

end Sound

end SessionM

def Message.output? : Message → Option (String × Value × Value)
  | .text content => do
    let kind ← (content.entry "type").toOption
    if kind.text? = some "executed" then
      let data ← (content.entry "data").toOption
      let p ← (← (data.entry "prompt_id").toOption).text?
      let node ← (data.entry "node").toOption
      let output ← (data.entry "output").toOption
      if node.hashable then some (p, node, output) else none
    else none
  | _ => none

def Message.record (m : Message) (p : String) (recorded : List (Value × Value)) :
    List (Value × Value) :=
  match m.output? with
  | some (q, node, output) => if q = p then Table.put node output recorded else recorded
  | none => recorded

namespace Session

variable {κ : Type} {F : Nat → Prop} {s s' s'' : Session κ}
  {note : String → List (Value × Value) → List (Value × Value)} {id : Nat}

/-- What is recorded for tasks in the queue changes as told, and nothing is recorded for new ones. -/
def Notes (note : String → List (Value × Value) → List (Value × Value)) (s s' : Session κ) : Prop :=
  ∀ p id, (Value.str p, id) ∈ s'.queue.tasks →
    ((.str p, id) ∈ s.queue.tasks ∧ s'.recordedFor id = note p (s.recordedFor id)) ∨
      (s.fresh ≤ id ∧ s'.recordedFor id = [])

theorem recordedFor_eq {t : TaskState} (h : Table.find? id s.tasks = some t) :
    s.recordedFor id = t.newOutputs := by
  simp [recordedFor, h]

theorem Keeps.recordedFor_eq (h : Keeps F s s') (hv : s.Valid) (hid : s.Registered id) :
    s'.recordedFor id = s.recordedFor id := by
  obtain ⟨t, ht⟩ := hv.find?_of_registered hid
  obtain ⟨t', ht', hout, -⟩ := h.recorded ht
  rw [Session.recordedFor_eq ht, Session.recordedFor_eq ht', hout]

theorem Keeps.notes (h : Keeps F s s') (hv : s.Valid) : Notes (fun _ recorded => recorded) s s' := by
  intro p id hmem
  obtain hold | ⟨hle, t, ht, hout, -⟩ := h.registered hmem
  · exact .inl ⟨hold, h.recordedFor_eq hv (mem_map_of_mem hold)⟩
  · exact .inr ⟨hle, by rw [Session.recordedFor_eq ht, hout]⟩

theorem Notes.trans_keeps (h : Notes note s s') (hv : s'.Valid) (hle : s.fresh ≤ s'.fresh)
    (h' : Keeps F s' s'') : Notes note s s'' := by
  intro p id hmem
  obtain ⟨hmem', heq⟩ | ⟨hle', hnew⟩ := h'.notes hv p id hmem
  · rw [heq]
    exact h p id hmem'
  · exact .inr ⟨Nat.le_trans hle hle', hnew⟩

theorem notes_record (hv : s.Valid) {p : String} (hid : (Value.str p, id) ∈ s.queue.tasks)
    (node output : Value) :
    Notes (fun q recorded => if p = q then Table.put node output recorded else recorded) s
      { s with
        tasks := Table.update id
          (fun t => { t with newOutputs := Table.put node output t.newOutputs }) s.tasks } := by
  intro q id' hmem
  refine .inl ⟨hmem, ?_⟩
  obtain ⟨t, ht⟩ := hv.known hmem
  simp only [recordedFor, Table.find?_update, ht]
  by_cases hpq : p = q
  · have hid' : id' = id := by
      have hkeys := inj_on_of_nodup_map hv.keys_nodup hmem hid (by rw [hpq])
      exact (Prod.mk.inj hkeys).2
    simp [hpq, hid']
  · have hid' : id' ≠ id := by
      rintro rfl
      have hids := inj_on_of_nodup_map hv.ids_nodup hmem hid rfl
      exact hpq (Value.str.inj (Prod.mk.inj hids).1).symm
    simp [hpq, hid']

theorem notes_refl {m : Message}
    (h : ∀ p id node output, (Value.str p, id) ∈ s.queue.tasks →
      m.output? ≠ some (p, node, output)) :
    Notes m.record s s := by
  intro p id hmem
  refine .inl ⟨hmem, ?_⟩
  unfold Message.record
  split
  · rename_i q node output hm
    by_cases hq : q = p
    · exact absurd hm (hq ▸ h q id node output (hq ▸ hmem))
    · simp [hq]
  · rfl

end Session

theorem Message.output?_text {content node output : Value} {p : String} :
    (Message.text content).output? = some (p, node, output) ↔
      ∃ kind data promptId, content.entry "type" = .ok kind ∧ kind.text? = some "executed" ∧
        content.entry "data" = .ok data ∧ data.entry "prompt_id" = .ok promptId ∧
        promptId.text? = some p ∧ data.entry "node" = .ok node ∧ data.entry "output" = .ok output ∧
        node.hashable = true := by
  simp [Message.output?, Option.bind_eq_some_iff, toOption_eq_some_iff]

namespace SessionM

variable {κ : Type} {run : Runner κ} {s : Session κ} {content kind : Value}

theorem run_taskOf (hv : s.Valid) {promptId : Value} (hh : promptId.hashable = true) :
    (taskOf promptId).run s =
      (.ok (promptId.text?.bind fun p => Table.find? (.str p) s.queue.tasks), s) := by
  unfold taskOf
  rw [← Value.find?_of_texts hv.text]
  simp only [hh, Bool.not_true, Bool.false_eq_true, if_false]
  rfl

theorem run_taskOf_error {promptId : Value} (hh : promptId.hashable = false) (s : Session κ) :
    (taskOf promptId).run s = (.error .wrongKind, s) := by
  unfold taskOf
  simp only [hh, Bool.not_false, if_true]
  rfl

theorem hashable_of_text? {v : Value} {p : String} (h : v.text? = some p) : v.hashable = true := by
  unfold Value.text? at h
  split at h
  · rfl
  · rfl
  · rfl
  · cases h

theorem run_receiveOutput_none (hv : s.Valid) (st : Watching) (hkind : content.entry "type" = .ok kind)
    (hexecuted : kind.text? = some "executed")
    (hnone : ∀ p id node output, (Value.str p, id) ∈ s.queue.tasks →
      (Message.text content).output? ≠ some (p, node, output)) :
    ((receiveOutput st content).run s).2 = s := by
  unfold receiveOutput
  cases hdata : content.entry "data" with
  | error e => rfl
  | ok data =>
  rw [run_bind_ok (run_check_ok data s)]
  cases hprompt : data.entry "prompt_id" with
  | error e => rfl
  | ok promptId =>
  rw [run_bind_ok (run_check_ok promptId s)]
  cases hh : promptId.hashable with
  | false => rw [run_bind_error (run_taskOf_error hh s)]
  | true =>
  rw [run_bind_ok (run_taskOf hv hh)]
  cases hfind : promptId.text?.bind fun p => Table.find? (.str p) s.queue.tasks with
  | none => rfl
  | some id =>
  obtain ⟨p, hp, hid⟩ := Option.bind_eq_some_iff.1 hfind
  cases hnode : data.entry "node" with
  | error e => rfl
  | ok node =>
  cases houtput : data.entry "output" with
  | error e => rfl
  | ok output =>
  cases hhash : node.hashable with
  | true =>
    refine absurd (Message.output?_text.2 ?_)
      (hnone p id node output (Value.mem_of_find?_texts hv.text hid))
    exact ⟨kind, data, promptId, hkind, hexecuted, hdata, hprompt, hp, hnode, houtput, hhash⟩
  | false =>
    have hset : (setOutput id node output s.queue.showOutput).run s = (.error .wrongKind, s) := by
      unfold setOutput
      simp only [hhash, Bool.not_false, if_true]
      rfl
    dsimp only
    rw [run_bind_ok (run_check_ok node s), run_bind_ok (run_check_ok output s),
      run_bind_ok (run_get s), run_bind_error hset]

theorem notes_receiveOutput (hv : s.Valid) (st : Watching) (hkind : content.entry "type" = .ok kind)
    (hexecuted : kind.text? = some "executed") :
    Session.Notes (Message.text content).record s ((receiveOutput st content).run s).2 := by
  by_cases hm : ∃ p id node output, (Value.str p, id) ∈ s.queue.tasks ∧
      (Message.text content).output? = some (p, node, output)
  · obtain ⟨p, id, node, output, hid, hm⟩ := hm
    obtain ⟨_, data, promptId, -, -, hdata, hprompt, hp, hnode, houtput, hhash⟩ :=
      Message.output?_text.1 hm
    have hrecord : (Message.text content).record = fun q recorded =>
        if p = q then Table.put node output recorded else recorded := by
      funext q recorded
      simp [Message.record, hm]
    have htask : (taskOf promptId).run s = (.ok (some id), s) := by
      rw [run_taskOf hv (hashable_of_text? hp), hp]
      simp [Value.find?_of_mem_texts hv.text hv.keys_nodup hid]
    have hset : ∀ wanted, (setOutput id node output wanted).run s =
        (if wanted.truthy then showNewResult output else pure () : SessionM κ Unit).run { s with
          tasks := Table.update id
            (fun t => { t with newOutputs := Table.put node output t.newOutputs }) s.tasks } := by
      intro wanted
      unfold setOutput
      simp only [hhash, Bool.not_true, Bool.false_eq_true, if_false]
      rfl
    have hnotes := Session.notes_record hv hid node output
    have hadvances := Session.advances_record hv id
      (fun t => { t with newOutputs := Table.put node output t.newOutputs }) fun _ => rfl
    rw [hrecord]
    refine hnotes.trans_keeps (F := fun _ => False) hadvances.valid hadvances.fresh_le ?_
    unfold receiveOutput
    rw [hdata, run_bind_ok (run_check_ok data s), hprompt, run_bind_ok (run_check_ok promptId s),
      run_bind_ok htask]
    dsimp only
    rw [hnode, run_bind_ok (run_check_ok node s), houtput, run_bind_ok (run_check_ok output s),
      run_bind_ok (run_get s), run_bind, hset, ← run_bind]
    refine Calm.bind (calm_ite (calm_showNewResult _) (calm_pure _)) (fun _ => ?_) _
      hadvances.valid
    refine calm_get.bind fun _ => calm_ite ?_ (calm_pure _)
    exact calm_printRemaining.bind fun _ => calm_pure _
  · have hnone : ∀ p id node output, (Value.str p, id) ∈ s.queue.tasks →
        (Message.text content).output? ≠ some (p, node, output) :=
      fun p id node output hid h => hm ⟨p, id, node, output, hid, h⟩
    rw [run_receiveOutput_none hv st hkind hexecuted hnone]
    exact Session.notes_refl hnone

theorem calm_receiveDone (hrun : run.Calm) (st : Watching) (data : Value) :
    Calm (fun _ => True) (receiveDone run st data) := by
  intro s hv
  obtain ⟨F, hkeeps, -⟩ := keeps_receiveDone hrun st data hv
  exact hkeeps.mono fun _ _ => trivial

theorem calm_receiveText (hrun : run.Calm) (st : Watching) (hkind : content.entry "type" = .ok kind)
    (hexecuted : kind.text? ≠ some "executed") :
    Calm (fun _ => True) (receiveText run st content) := by
  intro s hv
  unfold receiveText
  rw [hkind, run_bind_ok (run_check_ok kind s)]
  split
  · exact calm_receiveStatus hrun st content s hv
  · exact calm_pure _ s hv
  · refine Calm.bind (calm_check _) (fun data => (calm_check _).bind fun node => ?_) s hv
    split
    · exact calm_receiveDone hrun st data
    · exact calm_pure _
  · rename_i h
    exact absurd h hexecuted
  · exact calm_receiveProgress st content s hv
  · exact calm_pure _ s hv

theorem notes_receive (hrun : run.Calm) (hv : s.Valid) (st : Watching) (m : Message) :
    Session.Notes m.record s ((receive run st m).run s).2 := by
  have hcalm : ∀ {x : SessionM κ (Option Watching)}, m.output? = none → Calm (fun _ => True) x →
      Session.Notes m.record s (x.run s).2 := by
    intro x hm hx
    have hrecord : m.record = fun _ recorded => recorded := by
      funext p recorded
      rw [Message.record, hm]
    rw [hrecord]
    exact (hx s hv).notes hv
  unfold receive
  cases m with
  | binary b => exact hcalm rfl ((calm_receiveBinary st b).bind fun _ => calm_pure _)
  | closed => exact hcalm rfl (calm_pure _)
  | other => exact hcalm rfl (calm_pure _)
  | broken => exact hcalm rfl (calm_throw _)
  | text content =>
    dsimp only
    cases hkind : content.entry "type" with
    | error e =>
      refine hcalm ?_ (Calm.bind ?_ fun _ => calm_pure _)
      · simp [Message.output?, hkind, Except.toOption]
      · unfold receiveText
        rw [hkind]
        exact fun s hv => .refl hv
    | ok kind =>
      by_cases hexecuted : kind.text? = some "executed"
      · have hrun : (receiveText run st content).run s = (receiveOutput st content).run s := by
          unfold receiveText
          rw [hkind, run_bind_ok (run_check_ok kind s), hexecuted]
          rfl
        rw [run_bind, hrun, ← run_bind, snd_run_bind_pure]
        exact notes_receiveOutput hv st hkind hexecuted
      · refine hcalm ?_ (Calm.bind ?_ fun _ => calm_pure _)
        · simp [Message.output?, hkind, hexecuted, Except.toOption]
        · exact calm_receiveText hrun st hkind hexecuted

theorem notes_receiveNext (hrun : run.Calm) (hv : s.Valid) (st : Option Watching) (m : Message) :
    Session.Notes m.record s ((receiveNext run st m).run s).2 := by
  obtain ⟨queued, hsound⟩ := sound_resume st s hv
  obtain ⟨trace, hresume⟩ := run_resume st s
  rw [hresume] at hsound
  obtain ⟨queued', hsound'⟩ := sound_receive hrun (st.getD .start) m _ hsound.valid
  have hnotes := notes_receive hrun hsound.valid (st.getD .start) m
  exact hnotes.trans_keeps hsound'.valid hsound'.fresh_le
    (keeps_receiveNext (F := fun _ => False) st m hresume hsound'.valid)

end SessionM

end Flowscript
