import Flowscript.Proofs.Session.Messages

/-!
# How tasks are finished

When the server tells that a prompt is done, the task of the prompt is to be finished with the
outputs that arrived for it and those that the server remembers. If no task is left to run, the
other tasks in the queue are finished too, with what arrived for them. The two do not go together:
the task that is finished with the outputs of the prompt is the one that was met last, so if there
are other tasks, it is one of them, and the task of the prompt is never finished.
-/

namespace Flowscript

open List Option

def Message.Finishes (m : Message) (p : String) : Prop :=
  ∃ content kind data, m = .text content ∧ content.entry "type" = .ok kind ∧
    kind.text? = some "executing" ∧ content.entry "data" = .ok data ∧
    data.entry "node" = .ok .null ∧ data.entry "prompt_id" = .ok (.str p)

def Action.record (p : String) (recorded : List (Value × Value)) (a : Action) :
    List (Value × Value) :=
  match a with
  | .message m => m.record p recorded
  | _ => recorded

theorem attempts_append (id : Nat) (jobs jobs' : List Job) :
    attempts id (jobs ++ jobs') = attempts id jobs ++ attempts id jobs' :=
  filterMap_append

theorem attempts_eq_nil {jobs : List Job} {id : Nat}
    (h : ∀ outputs, Job.finish id outputs ∉ jobs) : attempts id jobs = [] := by
  rw [attempts, filterMap_eq_nil_iff]
  intro job hmem
  cases job with
  | tell name outputs => rfl
  | finish id' outputs =>
    have hne : id' ≠ id := by
      rintro rfl
      exact h outputs hmem
    simp [Job.outputsFor, hne]

namespace Session

variable {κ : Type} {s : Session κ}

instance (s : Session κ) (id : Nat) : Decidable (s.Registered id) :=
  inferInstanceAs (Decidable (id ∈ _))

structure Idle (s : Session κ) : Prop where
  below : ∀ {id t}, (id, t) ∈ s.tasks → id < s.fresh
  answers : s.server.NamesPrompts
  queue : s.queue.tasks = []
  jobs : s.jobs = []

def remembered (run : Runner κ) (s : Session κ) (p : String) : Except Fault Value :=
  ((do
    let _ ← SessionM.dequeue (.str p)
    SessionM.notify run
    SessionM.rememberedOutputs (.str p) : SessionM κ Value).run s).1

/-- What a task is left to be finished with when a prompt is done: if it leaves the queue with the
prompt, what was recorded for it, and if it was met last, the same with what the server remembers
of the prompt. -/
def doneWith (s : Session κ) (p : String) (outputs : List (String × Value)) (id : Nat) :
    List (List (Value × Value)) :=
  (((s.swept (.str p)).filter (·.2 = id)).map fun entry => s.recordedFor entry.2) ++
    if s.lastMet (.str p) = some id then [updated (s.recordedFor id) outputs] else []

theorem doneWith_of_swept_eq_nil {p : String} {id : Nat}
    (hid : Table.find? (.str p) s.queue.tasks = some id) (h : s.swept (.str p) = [])
    (outputs : List (String × Value)) :
    s.doneWith p outputs id = [updated (s.recordedFor id) outputs] := by
  simp [doneWith, lastMet, h, hid]

theorem doneWith_of_swept_ne_nil (hv : s.Valid) {p : String} {id : Nat}
    (hid : Table.find? (.str p) s.queue.tasks = some id) (h : s.swept (.str p) ≠ [])
    (outputs : List (String × Value)) : s.doneWith p outputs id = [] := by
  have hother : ∀ entry ∈ s.swept (.str p), entry.2 ≠ id := by
    rintro ⟨key, id'⟩ hentry rfl
    have hin := swept_subset _ hentry
    obtain rfl : key = .str p := (Prod.mk.inj (inj_on_of_nodup_map hv.ids_nodup hin
      (Value.mem_of_find?_texts hv.text hid) rfl)).1
    unfold swept at hentry
    split at hentry
    · simpa using (mem_filter.1 hentry).2
    · cases hentry
  obtain ⟨entry, hlast⟩ : ∃ entry, (s.swept (.str p)).getLast? = some entry :=
    ⟨_, getLast?_eq_some_getLast h⟩
  have hmet : s.lastMet (.str p) ≠ some id := by
    simp [lastMet, hlast, hother entry (mem_of_getLast? hlast)]
  have hnone : (s.swept (.str p)).filter (·.2 = id) = [] := by
    simpa [filter_eq_nil_iff] using fun a b => hother (a, b)
  simp [doneWith, hmet, hnone]

theorem Keeps.attempts_eq {s' : Session κ} (h : Keeps (fun _ => False) s s') (id : Nat) :
    attempts id s'.jobs = attempts id s.jobs := by
  obtain ⟨queued, hjobs, hnone⟩ := h.jobs
  rw [hjobs, attempts_append, attempts_eq_nil fun outputs hmem => hnone id outputs hmem,
    append_nil]

end Session

namespace SessionM

variable {κ : Type} {F : Nat → Prop} {p : String} {s : Session κ}

theorem run_receive_finishes {m : Message} (hm : m.Finishes p) :
    ∃ data : Value, data.entry "prompt_id" = .ok (.str p) ∧ ∀ (run : Runner κ) st s,
      (receive run st m).run s = (receiveDone run st data >>= fun st => pure (some st)).run s := by
  obtain ⟨content, kind, data, rfl, hkind, hexecuting, hdata, hnode, hprompt⟩ := hm
  refine ⟨data, hprompt, fun run st s => ?_⟩
  have htext : (receiveText run st content).run s = (receiveDone run st data).run s := by
    have hexecute : (receiveExecuting run st content).run s = (receiveDone run st data).run s := by
      unfold receiveExecuting
      rw [hdata, run_bind_ok (run_check_ok data s), hnode, run_bind_ok (run_check_ok _ s)]
    unfold receiveText
    rw [hkind, run_bind_ok (run_check_ok kind s), hexecuting]
    exact hexecute
  unfold receive
  dsimp only
  rw [run_bind, run_bind, htext]

theorem snd_run_receive {m : Message} (hm : m.Finishes p) :
    ∃ data : Value, data.entry "prompt_id" = .ok (.str p) ∧ ∀ (run : Runner κ) st s,
      ((receive run st m).run s).2 = ((receiveDone run st data).run s).2 := by
  obtain ⟨data, hprompt, hreceive⟩ := run_receive_finishes (κ := κ) hm
  refine ⟨data, hprompt, fun run st s => ?_⟩
  rw [hreceive, snd_run_bind_pure]

theorem run_finishWith {promptId : Value} {last : Nat} {s' : Session κ} {t : TaskState}
    {remembered : List (String × Value)}
    (hremembered : (rememberedOutputs promptId).run s = (.ok (.dict remembered), s'))
    (ht : Table.find? last s'.tasks = some t) :
    (finishWith promptId (some last)).run s =
      ((if s'.queue.showTask.truthy then showOutputs (updated t.newOutputs remembered) else pure ()) >>=
        fun _ => get >>= fun s'' => if s''.queue.showTask.truthy then printRemaining else pure ()).run
          { s' with jobs := s'.jobs ++ [.finish last (updated t.newOutputs remembered)] } := by
  have hset : ∀ wanted, (setOutputs last (.dict remembered) wanted).run s' =
      (if wanted.truthy then showOutputs (updated t.newOutputs remembered) else pure () :
        SessionM κ Unit).run
          { s' with jobs := s'.jobs ++ [.finish last (updated t.newOutputs remembered)] } :=
    fun wanted => run_bind_ok (run_finishTask ht remembered)
  unfold finishWith
  rw [run_bind_ok hremembered]
  dsimp only
  rw [run_bind_ok (run_get s'), run_bind, hset, ← run_bind]

theorem attempts_finishWith {promptId : Value} {last : Nat} {s' : Session κ}
    {remembered : List (String × Value)}
    (hremembered : (rememberedOutputs promptId).run s = (.ok (.dict remembered), s')) (hv : s.Valid)
    (hlast : ∃ t, Table.find? last s.tasks = some t) (id : Nat) :
    attempts id ((finishWith promptId (some last)).run s).2.jobs = attempts id s.jobs ++
      if last = id then [updated (s.recordedFor last) remembered] else [] := by
  have hkeeps := calm_rememberedOutputs (F := fun _ => False) promptId s hv
  rw [hremembered] at hkeeps
  obtain ⟨t, ht⟩ := hlast
  obtain ⟨t', ht', hout, -⟩ := hkeeps.recorded ht
  let all := updated t'.newOutputs remembered
  let left : Session κ := { s' with jobs := s'.jobs ++ [.finish last all] }
  have hleft : left.Valid := { hkeeps.valid with }
  have hrest : Session.Keeps (fun _ => False) left ((finishWith promptId (some last)).run s).2 := by
    rw [run_finishWith hremembered ht']
    refine Calm.bind (calm_ite (calm_showOutputs _) (calm_pure _)) (fun _ => ?_) left hleft
    exact calm_get.bind fun _ => calm_ite calm_printRemaining (calm_pure _)
  have hrecorded : s.recordedFor last = t'.newOutputs := by
    rw [Session.recordedFor_eq ht, hout]
  have hone : attempts id [.finish last all] = if last = id then [all] else [] := by
    by_cases hid : last = id <;> simp [attempts, Job.outputsFor, hid]
  rw [hrest.attempts_eq, attempts_append, hkeeps.attempts_eq, hone, hrecorded]

theorem attempts_map_finish (entries : List (Value × Nat)) (f : Nat → List (Value × Value))
    (id : Nat) :
    attempts id (entries.map fun entry => .finish entry.2 (f entry.2)) =
      (entries.filter (·.2 = id)).map fun entry => f entry.2 := by
  induction entries with
  | nil => rfl
  | cons entry rest ih =>
    unfold attempts at ih
    by_cases hid : entry.2 = id <;> simp [attempts, Job.outputsFor, hid, ih]

theorem attempts_receiveDone {run : Runner κ} (hrun : run.Calm) (hv : s.Valid) (st : Watching)
    {data : Value} {outputs : List (String × Value)} (hprompt : data.entry "prompt_id" = .ok (.str p))
    (hremembered : s.remembered run p = .ok (.dict outputs)) (other : Nat) :
    attempts other ((receiveDone run st data).run s).2.jobs =
      attempts other s.jobs ++ s.doneWith p outputs other := by
  obtain ⟨trace, s₂, hdequeue, hnotify, -, hnotified⟩ := 
    exists_notified hrun hv (show (Value.str p).hashable = true from rfl)
  have hswept : attempts other s₂.jobs = attempts other s.jobs ++
      ((s.swept (.str p)).filter (·.2 = other)).map fun entry => s.recordedFor entry.2 := by
    rw [hnotified.attempts_eq, Session.dequeued, attempts_append, attempts_map_finish]
  rw [run_receiveDone st hprompt hdequeue hnotify]
  cases hlast : s.lastMet (.str p) with
  | none =>
    have hfailed := calm_finishWith (.str p)
      (show ∀ id, (none : Option Nat) = some id → False by simp) s₂ hnotified.valid
    simp [hfailed.attempts_eq, hswept, Session.doneWith, hlast]
  | some last =>
    obtain ⟨s₃, hasked⟩ : ∃ s₃, (rememberedOutputs (.str p)).run s₂ = (.ok (.dict outputs), s₃) := by
      unfold Session.remembered at hremembered
      rw [run_bind_ok hdequeue, run_bind_ok hnotify] at hremembered
      exact ⟨_, Prod.ext hremembered rfl⟩
    -- The task that is met last is still known when it is finished, with what was recorded for it.
    obtain ⟨t, ht⟩ := hv.find?_of_registered (Session.left_of_lastMet trace hv hlast).1
    obtain ⟨t₂, ht₂, hout₂, -⟩ := hnotified.recorded (show Table.find? last
      (s.dequeued (.str p) trace).tasks = some t from ht)
    have hrecorded : s₂.recordedFor last = s.recordedFor last := by
      rw [Session.recordedFor_eq ht₂, hout₂, ← Session.recordedFor_eq ht]
    rw [attempts_finishWith hasked hnotified.valid ⟨t₂, ht₂⟩ other, hrecorded, hswept,
      Session.doneWith, hlast, append_assoc]
    by_cases hother : last = other <;> simp [hother]

theorem calm_act_put (run : Runner κ) (st : Option Watching) (workflow source : Value) :
    Calm F (act run st (.put workflow source)) :=
  (calm_put _ _).bind fun _ => calm_pure _

theorem calm_act_connect (run : Runner κ) (st : Option Watching) : Calm F (act run st .connect) :=
  (calm_setBar _).bind fun _ => calm_connect.bind fun _ => calm_pure _

end SessionM

namespace Watched

variable {κ : Type}

def resumed (w : Watched κ) : Session κ := ((SessionM.resume w.watching).run w.session).2

def since (run : Runner κ) (id : Nat) : Watched κ → List Action → List Action
  | _, [] => []
  | w, a :: rest =>
    if (perform run w a).session.Registered id then rest else since run id (perform run w a) rest

/-- The outputs of a prompt that arrived while its task was in the queue. -/
def received (run : Runner κ) (p : String) (id : Nat) (w : Watched κ) (actions : List Action) :
    List (Value × Value) :=
  (since run id w actions).foldl (Action.record p) []

/-- The task was left to be finished once, with the given outputs, and gets them. -/
structure FinishedOnce (w : Watched κ) (id : Nat) (outputs : List (Value × Value)) : Prop where
  once : attempts id w.jobs = [outputs]
  result : ∃ t, Table.find? id (SessionM.runJobs.run w.session).2.tasks = some t ∧
    t.result = some outputs

/-- A watched session in order: the tasks that were left to be finished are not in the queue, and
those in the queue have no result. -/
structure Sane (w : Watched κ) : Prop where
  valid : w.session.Valid
  pending : ∀ job ∈ w.session.jobs, job ∈ w.jobs
  finished : ∀ id outputs, Job.finish id outputs ∈ w.jobs → w.session.Gone id
  awaited : ∀ {id t}, w.session.Registered id → Table.find? id w.session.tasks = some t →
    t.result = none

/-- The result of a task is the first one that it was to be finished with. -/
def Tracks (w : Watched κ) (id : Nat) : Prop :=
  ∃ t, Table.find? id w.session.tasks = some t ∧
    t.result.or (attempts id w.session.jobs).head? = (attempts id w.jobs).head?

theorem sane_of_idle {s : Session κ} (hs : s.Idle) : (of s).Sane := by
  have hvalid : s.Valid := by
    refine ⟨hs.below, ?_, ?_, ?_, ?_, hs.answers⟩ <;> simp [hs.queue]
  refine ⟨hvalid, fun _ => id, fun id outputs hmem => ?_, fun hid => ?_⟩
  · simp [of, hs.jobs] at hmem
  · simp [of, Session.Registered, hs.queue] at hid

theorem Sane.attempts_eq_nil {w : Watched κ} (hw : w.Sane) {id : Nat}
    (hid : w.session.Registered id) : attempts id w.jobs = [] :=
  Flowscript.attempts_eq_nil fun outputs hmem => (hw.finished id outputs hmem).2 hid

section Steps

variable {run : Runner κ} {w : Watched κ} {a : Action} {id : Nat}

theorem advances_perform (hrun : run.Calm) (hv : w.session.Valid) (ha : a ≠ .settle) :
    ∃ queued, w.session.Advances (perform run w a).session queued ∧
      (perform run w a).jobs = w.jobs ++ queued := by
  have hsound : SessionM.Sound (SessionM.act run w.watching a) := by
    cases a with
    | put workflow source => exact (SessionM.calm_act_put run w.watching workflow source).sound
    | connect => exact (SessionM.calm_act_connect run w.watching).sound
    | message m => exact SessionM.sound_receiveNext hrun _ _
    | settle => exact absurd rfl ha
  obtain ⟨queued, hadvances⟩ := hsound w.session hv
  refine ⟨queued, hadvances, ?_⟩
  have hdrop : (perform run w a).session.jobs.drop w.session.jobs.length = queued := by
    rw [session_perform, hadvances.jobs, drop_left]
  exact congrArg (w.jobs ++ ·) hdrop

theorem settles_perform (run : Runner κ) (hw : w.Sane) :
    Session.Settles { w.session with jobs := [] } (perform run w .settle).session w.session.jobs ∧
      (perform run w .settle).jobs = w.jobs := by
  have hsettles := SessionM.settles_runJobs w.session fun id outputs hmem =>
    (hw.finished id outputs (hw.pending _ hmem)).1
  rw [← session_settle run w] at hsettles
  refine ⟨hsettles, ?_⟩
  have hdrop : (perform run w .settle).session.jobs.drop w.session.jobs.length = [] := by
    rw [hsettles.pending, drop_nil]
  exact (congrArg (w.jobs ++ ·) hdrop).trans (append_nil _)

theorem sane_perform (hrun : run.Calm) (hw : w.Sane) (a : Action) : (perform run w a).Sane := by
  by_cases ha : a = .settle
  · subst ha
    obtain ⟨hsettles, hjobs⟩ := settles_perform run hw
    have hregistered : ∀ {id}, (perform run w .settle).session.Registered id ↔
        w.session.Registered id := by
      intro id
      rw [Session.Registered, hsettles.queue, Session.Registered]
    refine ⟨hsettles.valid { hw.valid with }, ?_, fun id outputs hmem => ?_, fun {id t} hid ht => ?_⟩
    · rw [hsettles.pending]
      simp
    · rw [hjobs] at hmem
      obtain ⟨⟨t, ht⟩, hout⟩ := hw.finished id outputs hmem
      obtain ⟨t', ht', -⟩ := hsettles.tasks ht
      exact ⟨⟨t', ht'⟩, fun hid => hout (hregistered.1 hid)⟩
    · obtain ⟨t₀, ht₀⟩ := hw.valid.find?_of_registered (hregistered.1 hid)
      obtain ⟨t', ht', -, hres⟩ := hsettles.tasks ht₀
      obtain rfl := some.inj (ht'.symm.trans ht)
      have hnone : attempts id w.session.jobs = [] := attempts_eq_nil fun outputs hmem =>
        (hw.finished id outputs (hw.pending _ hmem)).2 (hregistered.1 hid)
      rw [hres, hw.awaited (hregistered.1 hid) ht₀, hnone]
      rfl
  · obtain ⟨queued, hadvances, hjobs⟩ := advances_perform hrun hw.valid ha
    refine ⟨hadvances.valid, fun job hmem => ?_, fun id outputs hmem => ?_, fun {id t} hid ht => ?_⟩
    · rw [hadvances.jobs] at hmem
      rw [hjobs]
      exact mem_append.2 ((mem_append.1 hmem).imp_left (hw.pending job))
    · rw [hjobs] at hmem
      obtain hmem | hmem := mem_append.1 hmem
      · exact hadvances.gone hw.valid (hw.finished id outputs hmem)
      · exact (hadvances.finished id outputs hmem).2
    · obtain ⟨⟨key, id'⟩, hentry, rfl⟩ := mem_map.1 hid
      obtain hold | ⟨-, t', ht', hres⟩ := hadvances.registered hentry
      · obtain ⟨t₀, ht₀⟩ := hw.valid.known hold
        obtain ⟨t', ht', hres⟩ := hadvances.results ht₀
        obtain rfl := some.inj (ht'.symm.trans ht)
        rw [hres, hw.awaited (mem_map_of_mem hold) ht₀]
      · obtain rfl := some.inj (ht'.symm.trans ht)
        exact hres

theorem tracks_of_registered (hw : w.Sane) (hid : w.session.Registered id) :
    w.Tracks id := by
  obtain ⟨t, ht⟩ := hw.valid.find?_of_registered hid
  have hnone : attempts id w.session.jobs = [] := attempts_eq_nil fun outputs hmem =>
    (hw.finished id outputs (hw.pending _ hmem)).2 hid
  refine ⟨t, ht, ?_⟩
  rw [hw.awaited hid ht, hnone, hw.attempts_eq_nil hid]
  rfl

theorem tracks_perform (hrun : run.Calm) (hw : w.Sane) (hid : w.Tracks id) (a : Action) :
    (perform run w a).Tracks id := by
  obtain ⟨t, ht, htracks⟩ := hid
  by_cases ha : a = .settle
  · subst ha
    obtain ⟨hsettles, hjobs⟩ := settles_perform run hw
    obtain ⟨t', ht', -, hres⟩ := hsettles.tasks ht
    refine ⟨t', ht', ?_⟩
    rw [hres, hsettles.pending, hjobs, ← htracks]
    exact or_none
  · obtain ⟨queued, hadvances, hjobs⟩ := advances_perform hrun hw.valid ha
    obtain ⟨t', ht', hres⟩ := hadvances.results ht
    refine ⟨t', ht', ?_⟩
    rw [hres, hadvances.jobs, hjobs, attempts_append, attempts_append, head?_append,
      List.head?_append, ← htracks, Option.or_assoc]

theorem gone_perform (hrun : run.Calm) (hw : w.Sane) (hid : w.session.Gone id) (a : Action) :
    (perform run w a).session.Gone id ∧
      attempts id (perform run w a).jobs = attempts id w.jobs := by
  by_cases ha : a = .settle
  · subst ha
    obtain ⟨hsettles, hjobs⟩ := settles_perform run hw
    obtain ⟨⟨t, ht⟩, hout⟩ := hid
    obtain ⟨t', ht', -⟩ := hsettles.tasks ht
    rw [hjobs]
    refine ⟨⟨⟨t', ht'⟩, ?_⟩, rfl⟩
    rw [Session.Registered, hsettles.queue]
    exact hout
  · obtain ⟨queued, hadvances, hjobs⟩ := advances_perform hrun hw.valid ha
    refine ⟨hadvances.gone hw.valid hid, ?_⟩
    obtain ⟨⟨t, ht⟩, hout⟩ := hid
    have hnone : attempts id queued = [] := by
      refine attempts_eq_nil fun outputs hmem => ?_
      obtain ⟨hin | hle, -⟩ := hadvances.finished id outputs hmem
      · exact hout hin
      · exact absurd (hw.valid.lt_of_find? ht) (Nat.not_lt.2 hle)
    rw [hjobs, attempts_append, hnone, append_nil]

theorem notes_perform (hrun : run.Calm) (hw : w.Sane) (a : Action) :
    Session.Notes (fun p recorded => Action.record p recorded a) w.session (perform run w a).session := by
  cases a with
  | put workflow source =>
    have hcalm := SessionM.calm_act_put (F := fun _ => False) run w.watching workflow source
    exact (hcalm w.session hw.valid).notes hw.valid
  | connect =>
    have hcalm := SessionM.calm_act_connect (F := fun _ => False) run w.watching
    exact (hcalm w.session hw.valid).notes hw.valid
  | message m => exact SessionM.notes_receiveNext hrun hw.valid w.watching m
  | settle =>
    obtain ⟨hsettles, -⟩ := settles_perform run hw
    intro p id hmem
    rw [hsettles.queue] at hmem
    obtain ⟨t, ht⟩ := hw.valid.known hmem
    obtain ⟨t', ht', hout, -⟩ := hsettles.tasks ht
    refine .inl ⟨hmem, ?_⟩
    rw [Session.recordedFor_eq ht', hout]
    exact (Session.recordedFor_eq ht).symm

theorem fresh_le_perform (hrun : run.Calm) (hw : w.Sane) (a : Action) :
    w.session.fresh ≤ (perform run w a).session.fresh := by
  by_cases ha : a = .settle
  · subst ha
    exact Nat.le_of_eq (settles_perform run hw).1.fresh.symm
  · obtain ⟨queued, hadvances, -⟩ := advances_perform hrun hw.valid ha
    exact hadvances.fresh_le

end Steps

section Runs

variable {run : Runner κ} {w : Watched κ} {p : String} {id : Nat} {actions : List Action}

theorem sane_performAll (hrun : run.Calm) (hw : w.Sane) (actions : List Action) :
    (performAll run w actions).Sane := by
  induction actions generalizing w with
  | nil => exact hw
  | cons a rest ih => exact ih (sane_perform hrun hw a)

theorem tracks_performAll (hrun : run.Calm) (hw : w.Sane) (hid : w.Tracks id)
    (actions : List Action) : (performAll run w actions).Tracks id := by
  induction actions generalizing w with
  | nil => exact hid
  | cons a rest ih => exact ih (sane_perform hrun hw a) (tracks_perform hrun hw hid a)

theorem attempts_performAll (hrun : run.Calm) (hw : w.Sane) (hid : w.session.Gone id)
    (actions : List Action) :
    attempts id (performAll run w actions).jobs = attempts id w.jobs := by
  induction actions generalizing w with
  | nil => rfl
  | cons a rest ih =>
    obtain ⟨hgone, hsame⟩ := gone_perform hrun hw hid a
    rw [performAll_cons, ih (sane_perform hrun hw a) hgone, hsame]

theorem notes_performAll (hrun : run.Calm) (hw : w.Sane) (hlt : id < w.session.fresh)
    (hend : (Value.str p, id) ∈ (performAll run w actions).session.queue.tasks) :
    (Value.str p, id) ∈ w.session.queue.tasks ∧
      (performAll run w actions).session.recordedFor id =
        actions.foldl (Action.record p) (w.session.recordedFor id) := by
  induction actions generalizing w with
  | nil => exact ⟨hend, rfl⟩
  | cons a rest ih =>
    obtain ⟨hmem, hrest⟩ :=
      ih (sane_perform hrun hw a) (Nat.lt_of_lt_of_le hlt (fresh_le_perform hrun hw a)) hend
    obtain ⟨hold, hrecorded⟩ | ⟨hle, -⟩ := notes_perform hrun hw a p id hmem
    · exact ⟨hold, by rw [performAll_cons, hrest, hrecorded, foldl_cons]⟩
    · exact absurd hlt (Nat.not_lt.2 hle)

theorem recordedFor_eq_received (hrun : run.Calm) (hw : w.Sane) (hid : ¬ w.session.Registered id)
    (hend : (Value.str p, id) ∈ (performAll run w actions).session.queue.tasks) :
    (performAll run w actions).session.recordedFor id = received run p id w actions := by
  induction actions generalizing w with
  | nil => exact absurd (mem_map_of_mem hend) hid
  | cons a rest ih =>
    have hw' := sane_perform hrun hw a
    unfold received since
    split
    · rename_i hjoined
      obtain ⟨t, ht⟩ := hw'.valid.find?_of_registered hjoined
      have hlt' := hw'.valid.lt_of_find? ht
      obtain ⟨hmem, hrest⟩ := notes_performAll hrun hw' hlt' hend
      obtain ⟨hold, -⟩ | ⟨-, hnew⟩ := notes_perform hrun hw a p id hmem
      · exact absurd (mem_map_of_mem hold) hid
      · rw [performAll_cons, hrest, hnew]
    · rename_i hout
      exact ih hw' hout hend

end Runs

section Done

variable {run : Runner κ} {w : Watched κ} {m : Message} {p : String} {id : Nat}
  {outputs : List (String × Value)}

theorem run_resume (w : Watched κ) : (SessionM.resume w.watching).run w.session =
    (.ok (w.watching.getD .start), w.resumed) := by
  obtain ⟨trace, hresume⟩ := SessionM.run_resume w.watching w.session
  exact hresume.trans (congrArg (Prod.mk _) (congrArg Prod.snd hresume).symm)

theorem resumed_eq (w : Watched κ) : w.resumed.jobs = w.session.jobs ∧
    w.resumed.tasks = w.session.tasks ∧ w.resumed.queue.tasks = w.session.queue.tasks := by
  obtain ⟨trace, hresume⟩ := SessionM.run_resume w.watching w.session
  have hresumed : w.resumed = _ := congrArg Prod.snd hresume
  rw [hresumed]
  exact ⟨rfl, rfl, rfl⟩

theorem Sane.valid_resumed (hw : w.Sane) : w.resumed.Valid := by
  obtain ⟨_, hsound⟩ := SessionM.sound_resume w.watching w.session hw.valid
  exact hsound.valid

theorem keeps_perform_done (hrun : run.Calm) (hw : w.Sane) (hm : m.Finishes p) :
    ∃ data : Value, data.entry "prompt_id" = .ok (.str p) ∧
      ((SessionM.receiveDone run (w.watching.getD .start) data).run w.resumed).2.Valid ∧
      Session.Keeps (fun _ => False)
        ((SessionM.receiveDone run (w.watching.getD .start) data).run w.resumed).2
        (perform run w (.message m)).session := by
  obtain ⟨data, hprompt, hreceive⟩ := SessionM.snd_run_receive (κ := κ) hm
  obtain ⟨_, hdone⟩ := SessionM.sound_receive hrun (w.watching.getD .start) m w.resumed hw.valid_resumed
  have hkeeps := SessionM.keeps_receiveNext (F := fun _ => False) w.watching m (run_resume w) hdone.valid
  rw [hreceive] at hdone hkeeps
  exact ⟨data, hprompt, hdone.valid, hkeeps⟩

theorem attempts_perform_done (hrun : run.Calm) (hw : w.Sane) (hm : m.Finishes p)
    (hremembered : w.resumed.remembered run p = .ok (.dict outputs)) (other : Nat) :
    attempts other (perform run w (.message m)).jobs =
      attempts other w.jobs ++ w.resumed.doneWith p outputs other := by
  obtain ⟨hjobs, -, -⟩ := resumed_eq w
  obtain ⟨data, hprompt, -, hkeeps⟩ := keeps_perform_done hrun hw hm
  have hattempts : attempts other (perform run w (.message m)).session.jobs =
      attempts other w.session.jobs ++ w.resumed.doneWith p outputs other := by
    rw [hkeeps.attempts_eq,
      SessionM.attempts_receiveDone hrun hw.valid_resumed _ hprompt hremembered, hjobs]
  obtain ⟨queued, hadvances, hall⟩ := advances_perform hrun hw.valid (a := .message m) nofun
  rw [hadvances.jobs, attempts_append] at hattempts
  rw [hall, attempts_append, append_cancel_left hattempts]

theorem perform_done (hrun : run.Calm) (hw : w.Sane) (hm : m.Finishes p)
    (hid : Table.find? (.str p) w.session.queue.tasks = some id)
    (hremembered : w.resumed.remembered run p = .ok (.dict outputs)) :
    (perform run w (.message m)).session.Gone id ∧ ∀ other,
      attempts other (perform run w (.message m)).jobs =
        attempts other w.jobs ++ w.resumed.doneWith p outputs other := by
  refine ⟨?_, attempts_perform_done hrun hw hm hremembered⟩
  obtain ⟨-, -, hqueue⟩ := resumed_eq w
  have hv := hw.valid_resumed
  have hfound : Table.find? (.str p) w.resumed.queue.tasks = some id := by rw [hqueue, hid]
  obtain ⟨data, hprompt, hvalid, hkeeps⟩ := keeps_perform_done hrun hw hm
  obtain ⟨_, hadvances⟩ := hkeeps.advances nofun
  obtain ⟨trace', -, hgone⟩ := SessionM.keeps_receiveDone_of_hashable hrun
    (w.watching.getD .start) hv hprompt rfl
  exact hadvances.gone hvalid (hgone id (Session.left_of_find? trace' hv hfound))

theorem finishedOnce_of_attempts (hw : w.Sane) (hid : w.Tracks id) {all : List (Value × Value)}
    (h : attempts id w.jobs = [all]) : w.FinishedOnce id all := by
  obtain ⟨t, ht, htracks⟩ := hid
  have hsettles := SessionM.settles_runJobs w.session fun id outputs hmem =>
    (hw.finished id outputs (hw.pending _ hmem)).1
  obtain ⟨t', ht', -, hres⟩ := hsettles.tasks ht
  refine ⟨h, t', ht', ?_⟩
  rw [hres, htracks, h]
  rfl

end Done

/-- When a message tells that a prompt is done and its task is in the queue, then the task is finished
exactly once, with the outputs that were recorded for it and those that the server remembers, and
the tasks that leave the queue with it are finished exactly once with their own outputs, if and only
if there are no such other tasks. -/
theorem finishedOnce_iff {run : Runner κ} (hrun : run.Calm) {s : Session κ} (hs : s.Idle)
    (before after : List Action) {m : Message} {p : String} (hm : m.Finishes p) (id : Nat)
    (hid : Table.find? (.str p) (performAll run (of s) before).session.queue.tasks = some id)
    (outputs : List (String × Value))
    (hremembered : (performAll run (of s) before).resumed.remembered run p = .ok (.dict outputs)) :
    let swept := (performAll run (of s) before).resumed.swept (.str p)
    let final := performAll run (of s) (before ++ .message m :: after)
    (final.FinishedOnce id (updated (received run p id (of s) before) outputs) ∧
      ∀ q other, (Value.str q, other) ∈ swept →
        final.FinishedOnce other (received run q other (of s) before)) ↔ swept = [] := by
  intro swept final
  have hstart := sane_of_idle hs
  have hw := sane_performAll hrun hstart before
  have hfinal : final = performAll run
      (perform run (performAll run (of s) before) (.message m)) after :=
    performAll_append run (of s) before (.message m :: after)
  have hmem := Value.mem_of_find?_texts hw.valid.text hid
  have hregistered := List.mem_map_of_mem (f := Prod.snd) hmem
  obtain ⟨hgone, hattempts⟩ := perform_done hrun hw hm hid hremembered
  have hsane := sane_perform hrun hw (.message m)
  have hall : attempts id final.jobs =
      (performAll run (of s) before).resumed.doneWith p outputs id := by
    rw [hfinal, attempts_performAll hrun hsane hgone after, hattempts,
      hw.attempts_eq_nil hregistered, List.nil_append]
  obtain ⟨-, htasks, hqueue⟩ := resumed_eq (performAll run (of s) before)
  have hfound : Table.find? (.str p) (performAll run (of s) before).resumed.queue.tasks = some id := by
    rw [hqueue, hid]
  constructor
  · rintro ⟨hone, -⟩
    by_contra hne
    rw [hone.once, Session.doneWith_of_swept_ne_nil hw.valid_resumed hfound hne] at hall
    cases hall
  · intro hnil
    refine ⟨?_, by simp [hnil]⟩
    have hnew : ¬ (of s).session.Registered id := by
      simp [of, Session.Registered, hs.queue]
    have hrecorded : (performAll run (of s) before).resumed.recordedFor id =
        received run p id (of s) before := by
      rw [← recordedFor_eq_received hrun hstart hnew hmem, Session.recordedFor, htasks]
      rfl
    rw [Session.doneWith_of_swept_eq_nil hfound hnil, hrecorded] at hall
    have htracks := tracks_performAll hrun hw (tracks_of_registered hw hregistered)
      (.message m :: after)
    rw [← performAll_append] at htracks
    exact finishedOnce_of_attempts (sane_performAll hrun hstart _) htracks hall

section Example

def idleCode : Runner Unit := fun _ _ => pure .null

def twoPrompts : Server where
  routes := [
    ("POST prompt", [
      .answer (.ofJson (.dict [("prompt_id", .str "p"), ("number", .int 0)])),
      .answer (.ofJson (.dict [("prompt_id", .str "q"), ("number", .int 1)]))]),
    ("GET history/p", [
      .answer (.ofJson (.dict [("p", .dict [("outputs", .dict [("b", .str "late")])])]))])]

def news (kind : String) (data : List (String × Value)) : Message :=
  .text (.dict [("type", .str kind), ("data", .dict data)])

def doneNews : Message := news "executing" [("node", .null), ("prompt_id", .str "p")]

def queueOutput : Action := .put (.output 7 "IMAGE" .null 8 (.str "Save") [] (some 0)) .null

def outputNews : Action :=
  .message (news "executed" [("node", .str "a"), ("output", .str "early"), ("prompt_id", .str "p")])

theorem calm_idleCode : idleCode.Calm := fun _ _ _ hv => .refl hv

theorem finishes_doneNews : doneNews.Finishes "p" :=
  ⟨_, _, _, rfl, rfl, rfl, rfl, rfl, rfl⟩

theorem idle_twoPrompts : (Session.new twoPrompts "http://host/" false : Session Unit).Idle where
  below := by simp [Session.new]
  queue := rfl
  jobs := rfl
  answers := by
    intro route replies hroute r hr body v hbody hv
    simp only [Session.new, twoPrompts, mem_cons, not_mem_nil, or_false,
      Prod.mk.injEq] at hroute
    obtain ⟨-, rfl⟩ | ⟨-, rfl⟩ := hroute <;>
      simp only [mem_cons, not_mem_nil, or_false, Reply.answer.injEq] at hr
    · obtain rfl | rfl := hr <;> cases hbody <;> cases hv <;> exact ⟨_, rfl⟩
    · obtain rfl := hr
      cases hbody
      cases hv

/-- A single task is finished with what arrived and what the server remembers; with a second task in
the queue that goes wrong. -/
theorem finishedOnce_iff_twoPrompts :
    (performAll idleCode (of (.new twoPrompts "http://host/" false))
      [queueOutput, outputNews, .message doneNews, .settle]).FinishedOnce 1
        [(.str "a", .str "early"), (.str "b", .str "late")] ∧
    ¬ ((performAll idleCode (of (.new twoPrompts "http://host/" false))
      [queueOutput, queueOutput, outputNews, .message doneNews, .settle]).FinishedOnce 1
        [(.str "a", .str "early"), (.str "b", .str "late")] ∧
      ∀ q other, (Value.str q, other) ∈ [(Value.str "q", 2)] →
        (performAll idleCode (of (.new twoPrompts "http://host/" false))
          [queueOutput, queueOutput, outputNews, .message doneNews, .settle]).FinishedOnce other
            (received idleCode q other (of (.new twoPrompts "http://host/" false))
              [queueOutput, queueOutput, outputNews])) := by
  constructor
  · have h := finishedOnce_iff calm_idleCode idle_twoPrompts [queueOutput, outputNews] [.settle]
      finishes_doneNews 1 rfl [("b", .str "late")] rfl
    exact (h.2 rfl).1
  · have h := finishedOnce_iff calm_idleCode idle_twoPrompts
      [queueOutput, queueOutput, outputNews] [.settle] finishes_doneNews 1 rfl
      [("b", .str "late")] rfl
    exact fun hboth => List.cons_ne_nil _ _ (h.1 hboth)

end Example

end Watched

end Flowscript
