import Flowscript.Proofs.Session.Frame

/-!
# Runs of a watched session

Tasks are queued and messages of the server arrive in any order, and the jobs that this leaves are
done from time to time. A run keeps all jobs that were ever left, so that it tells how often, and
with what, a task was to be finished.
-/

namespace Flowscript

open List Option

inductive Action where
  | put (workflow source : Value)
  | connect
  | message (m : Message)
  | settle

namespace SessionM

variable {κ : Type}

/-- What is known when the next message arrives: after the connection was lost a new one is made. -/
def resume : Option Watching → SessionM κ Watching
  | some st => return st
  | none => do
    connect
    return .start

def receiveNext (run : Runner κ) (st : Option Watching) (m : Message) :
    SessionM κ (Option Watching) := do
  match ← receiveOrFail run (← resume st) m with
  | some st => return some st
  | none =>
    emit (.notice "sleep" [.int 5])
    return none

def act (run : Runner κ) (st : Option Watching) : Action → SessionM κ (Option Watching)
  | .put workflow source => do
    let _ ← put workflow source
    return st
  | .connect => do
    setBar none
    connect
    return some .start
  | .message m => receiveNext run st m
  | .settle => do
    runJobs
    return st

end SessionM

def Job.outputsFor (id : Nat) : Job → Option (List (Value × Value))
  | .finish task outputs => if task = id then some outputs else none
  | .tell .. => none

/-- What a task is to be finished with, in order. -/
def attempts (id : Nat) (jobs : List Job) : List (List (Value × Value)) :=
  jobs.filterMap (Job.outputsFor id)

structure Watched (κ : Type) where
  session : Session κ
  /-- What is known since the connection was made, unless it was lost. -/
  watching : Option Watching
  /-- The jobs that were ever left to be done. -/
  jobs : List Job

namespace Watched

variable {κ : Type}

/-- A session that is not watched yet. -/
def of (s : Session κ) : Watched κ := ⟨s, none, s.jobs⟩

def perform (run : Runner κ) (w : Watched κ) (a : Action) : Watched κ :=
  let (result, s) := (SessionM.act run w.watching a).run w.session
  { session := s
    watching := match result with
      | .ok st => st
      | .error _ => w.watching
    jobs := w.jobs ++ s.jobs.drop w.session.jobs.length }

def performAll (run : Runner κ) (w : Watched κ) (actions : List Action) : Watched κ :=
  actions.foldl (perform run) w

end Watched

namespace SessionM

variable {κ : Type} {run : Runner κ}

theorem run_resume (st : Option Watching) (s : Session κ) :
    ∃ trace, (resume st).run s = (.ok (st.getD .start), { s with
      trace := trace
      queue := { s.queue with
        remaining := if st.isSome then s.queue.remaining else .int 0 } }) := by
  cases st with
  | some st => exact ⟨s.trace, rfl⟩
  | none => exact ⟨_, rfl⟩

theorem run_receiveOrFail (run : Runner κ) (st : Watching) (m : Message) (s : Session κ) :
    ∃ st' s', (receiveOrFail run st m).run s = (.ok st', s') := by
  unfold receiveOrFail
  rw [run_tryCatch]
  split
  · exact ⟨_, _, rfl⟩
  · exact ⟨_, _, rfl⟩

theorem run_receiveNext {st : Option Watching} {m : Message} {s s₁ s₂ : Session κ}
    {st' : Option Watching} (hresume : (resume st).run s = (.ok (st.getD .start), s₁))
    (hreceive : (receiveOrFail run (st.getD .start) m).run s₁ = (.ok st', s₂)) :
    (receiveNext run st m).run s = (.ok st', if st'.isSome then s₂ else
      { s₂ with trace := { s₂.trace with
        events := s₂.trace.events ++ [.notice "sleep" [.int 5]] } }) := by
  unfold receiveNext
  rw [run_bind_ok hresume, run_bind_ok hreceive]
  cases st' <;> rfl

end SessionM

namespace Watched

variable {κ : Type}

@[simp]
theorem performAll_nil (run : Runner κ) (w : Watched κ) : performAll run w [] = w := rfl

@[simp]
theorem performAll_cons (run : Runner κ) (w : Watched κ) (a : Action) (rest : List Action) :
    performAll run w (a :: rest) = performAll run (perform run w a) rest := rfl

theorem performAll_append (run : Runner κ) (w : Watched κ) (first rest : List Action) :
    performAll run w (first ++ rest) = performAll run (performAll run w first) rest :=
  foldl_append

theorem perform_of_run {run : Runner κ} {w : Watched κ} {a : Action} {st : Option Watching}
    {s : Session κ} (h : (SessionM.act run w.watching a).run w.session = (.ok st, s)) :
    perform run w a = ⟨s, st, w.jobs ++ s.jobs.drop w.session.jobs.length⟩ := by
  unfold perform
  rw [h]

theorem session_perform (run : Runner κ) (w : Watched κ) (a : Action) :
    (perform run w a).session = ((SessionM.act run w.watching a).run w.session).2 := rfl

theorem session_settle (run : Runner κ) (w : Watched κ) :
    (perform run w .settle).session = (SessionM.runJobs.run w.session).2 := by
  rw [session_perform, SessionM.act, snd_run_bind_pure]

theorem performAll_messages (run : Runner κ) (messages : List Message) (w : Watched κ) :
    (match w.watching with
      | some st => SessionM.watchFrom run st messages
      | none => do
        if !messages.isEmpty then SessionM.connect
        SessionM.watchFrom run .start messages).run w.session =
      (.ok (), (performAll run w (messages.map .message)).session) := by
  induction messages generalizing w with
  | nil =>
    cases hw : w.watching <;> rfl
  | cons m rest ih =>
    obtain ⟨s₁, hresume⟩ : ∃ s₁, (SessionM.resume w.watching).run w.session =
        (.ok (w.watching.getD .start), s₁) :=
      ⟨_, (SessionM.run_resume w.watching w.session).choose_spec⟩
    obtain ⟨st', s₂, hreceive⟩ := SessionM.run_receiveOrFail run (w.watching.getD .start) m s₁
    have hperform := perform_of_run (a := .message m) (SessionM.run_receiveNext hresume hreceive)
    have hrest := ih (perform run w (.message m))
    rw [hperform] at hrest
    have hstart : (match w.watching with
        | some st => SessionM.watchFrom run st (m :: rest)
        | none => do
          if !(m :: rest).isEmpty then SessionM.connect
          SessionM.watchFrom run .start (m :: rest)).run w.session =
        (SessionM.watchFrom run (w.watching.getD .start) (m :: rest)).run s₁ := by
      cases hst : w.watching with
      | some st =>
        rw [hst] at hresume
        rw [← (Prod.mk.inj hresume).2]
        rfl
      | none =>
        rw [hst] at hresume
        rw [← (Prod.mk.inj hresume).2]
        rfl
    rw [hstart, SessionM.watchFrom, run_bind_ok hreceive, map_cons, performAll_cons,
      hperform]
    cases st' with
    | some st' => exact hrest
    | none => exact hrest

theorem performAll_watch (run : Runner κ) (messages : List Message) (s : Session κ) :
    ((SessionM.watch run messages).run s).2 =
      (performAll run (of s) (.connect :: messages.map .message ++ [.settle])).session := by
  have hmessages : (SessionM.watchFrom run .start messages).run
      (perform run (of s) .connect).session = _ :=
    performAll_messages run messages (perform run (of s) .connect)
  have hwatch : (SessionM.watch run messages).run s =
      (SessionM.watchFrom run .start messages >>= fun _ => SessionM.runJobs).run
        (perform run (of s) .connect).session := rfl
  rw [hwatch, run_bind_ok hmessages, performAll_append, performAll_cons]
  exact (session_settle run _).symm

end Watched

namespace Session

variable {κ : Type} {F : Nat → Prop} {s s' s'' : Session κ} {queued queued' : List Job} {id : Nat}

def Gone (s : Session κ) (id : Nat) : Prop :=
  (∃ t, Table.find? id s.tasks = some t) ∧ ¬ s.Registered id

theorem Valid.lt_of_find? (hv : s.Valid) {t : TaskState} (h : Table.find? id s.tasks = some t) :
    id < s.fresh := hv.below (Table.mem_of_find? h)

theorem Valid.find?_of_registered (hv : s.Valid) (h : s.Registered id) :
    ∃ t, Table.find? id s.tasks = some t := by
  obtain ⟨⟨key, id'⟩, hentry, rfl⟩ := mem_map.1 h
  exact hv.known hentry

/-- What any step does to tasks: those that it leaves to be finished leave the queue. -/
structure Advances (s s' : Session κ) (queued : List Job) : Prop where
  valid : s'.Valid
  fresh_le : s.fresh ≤ s'.fresh
  jobs : s'.jobs = s.jobs ++ queued
  finished : ∀ id outputs, Job.finish id outputs ∈ queued →
    (s.Registered id ∨ s.fresh ≤ id) ∧ s'.Gone id
  results : ∀ {id t}, Table.find? id s.tasks = some t →
    ∃ t', Table.find? id s'.tasks = some t' ∧ t'.result = t.result
  registered : ∀ {key id}, (key, id) ∈ s'.queue.tasks → (key, id) ∈ s.queue.tasks ∨
    s.fresh ≤ id ∧ ∃ t, Table.find? id s'.tasks = some t ∧ t.result = none

theorem Keeps.advances (h : Keeps F s s')
    (hF : ∀ id, F id → (s.Registered id ∨ s.fresh ≤ id) ∧ s'.Gone id) :
    ∃ queued, Advances s s' queued := by
  obtain ⟨queued, hjobs, hfinish⟩ := h.jobs
  refine ⟨queued, h.valid, h.fresh_le, hjobs, fun id outputs hmem => hF id (hfinish id _ hmem),
    fun ht => ?_, fun hmem => ?_⟩
  · obtain ⟨t', ht', -, hres⟩ := h.recorded ht
    exact ⟨t', ht', hres⟩
  · refine (h.registered hmem).imp_right fun ⟨hle, t, ht, _, hres⟩ => ⟨hle, t, ht, hres⟩

theorem Advances.registered_of (h : Advances s s' queued) (hid : s'.Registered id) :
    s.Registered id ∨ s.fresh ≤ id := by
  obtain ⟨⟨key, id'⟩, hentry, rfl⟩ := mem_map.1 hid
  exact (h.registered hentry).imp mem_map_of_mem And.left

theorem Advances.gone (h : Advances s s' queued) (hv : s.Valid) (hid : s.Gone id) : s'.Gone id := by
  obtain ⟨⟨t, ht⟩, hout⟩ := hid
  obtain ⟨t', ht', -⟩ := h.results ht
  refine ⟨⟨t', ht'⟩, fun hmem => ?_⟩
  obtain hin | hle := h.registered_of hmem
  · exact hout hin
  · exact absurd (hv.lt_of_find? ht) (Nat.not_lt.2 hle)

theorem Advances.trans (h : Advances s s' queued) (h' : Advances s' s'' queued') :
    Advances s s'' (queued ++ queued') where
  valid := h'.valid
  fresh_le := Nat.le_trans h.fresh_le h'.fresh_le
  jobs := by rw [h'.jobs, h.jobs, append_assoc]
  finished := by
    intro id outputs hmem
    obtain hmem | hmem := mem_append.1 hmem
    · obtain ⟨hin, hgone⟩ := h.finished id outputs hmem
      exact ⟨hin, h'.gone h.valid hgone⟩
    · obtain ⟨hin, hgone⟩ := h'.finished id outputs hmem
      refine ⟨?_, hgone⟩
      obtain hin | hle := hin
      · exact h.registered_of hin
      · exact .inr (Nat.le_trans h.fresh_le hle)
  results := by
    intro id t ht
    obtain ⟨t', ht', hres⟩ := h.results ht
    obtain ⟨t'', ht'', hres'⟩ := h'.results ht'
    exact ⟨t'', ht'', hres'.trans hres⟩
  registered := by
    intro key id hmem
    obtain hmem | ⟨hle, hnew⟩ := h'.registered hmem
    · obtain hmem | ⟨hle, t, ht, hres⟩ := h.registered hmem
      · exact .inl hmem
      · obtain ⟨t', ht', hres'⟩ := h'.results ht
        exact .inr ⟨hle, t', ht', hres'.trans hres⟩
    · exact .inr ⟨Nat.le_trans h.fresh_le hle, hnew⟩

theorem advances_record (hv : s.Valid) (id : Nat) (f : TaskState → TaskState)
    (hf : ∀ t, (f t).result = t.result) :
    Advances s { s with tasks := Table.update id f s.tasks } [] := by
  have hfind : ∀ {id' t}, Table.find? id' s.tasks = some t →
      ∃ t', Table.find? id' (Table.update id f s.tasks) = some t' ∧ t'.result = t.result := by
    intro id' t ht
    rw [Table.find?_update, ht]
    split
    · exact ⟨f t, rfl, hf t⟩
    · exact ⟨t, rfl, rfl⟩
  refine ⟨⟨?_, ?_, hv.text, hv.keys_nodup, hv.ids_nodup, hv.answers⟩, Nat.le_refl _, by simp,
    by simp, hfind, .inl⟩
  · intro id' t hmem
    have hkey : id' ∈ s.tasks.map Prod.fst := by
      rw [← Table.map_fst_update id f]
      exact mem_map_of_mem hmem
    obtain ⟨⟨_, t'⟩, hmem', rfl⟩ := mem_map.1 hkey
    exact hv.below hmem'
  · intro key id' hmem
    obtain ⟨t, ht⟩ := hv.known hmem
    obtain ⟨t', ht', -⟩ := hfind ht
    exact ⟨t', ht'⟩

/-- What jobs do to tasks: a task that has no result yet gets the first one that it is to be finished
with. -/
structure Settles (s s' : Session κ) (jobs : List Job) : Prop where
  queue : s'.queue = s.queue
  fresh : s'.fresh = s.fresh
  server : s'.server = s.server
  pending : s'.jobs = s.jobs
  keys : s'.tasks.map Prod.fst = s.tasks.map Prod.fst
  tasks : ∀ {id t}, Table.find? id s.tasks = some t →
    ∃ t', Table.find? id s'.tasks = some t' ∧ t'.newOutputs = t.newOutputs ∧
      t'.result = t.result.or (attempts id jobs).head?

theorem Settles.valid {jobs : List Job} (h : Settles s s' jobs) (hv : s.Valid) : s'.Valid where
  below := by
    intro id t hmem
    have hkey : id ∈ s.tasks.map Prod.fst := h.keys ▸ mem_map_of_mem hmem
    obtain ⟨⟨_, t'⟩, hmem', rfl⟩ := mem_map.1 hkey
    rw [h.fresh]
    exact hv.below hmem'
  known := by
    intro key id hmem
    rw [h.queue] at hmem
    obtain ⟨t, ht⟩ := hv.known hmem
    obtain ⟨t', ht', -⟩ := h.tasks ht
    exact ⟨t', ht'⟩
  text := h.queue ▸ hv.text
  keys_nodup := h.queue ▸ hv.keys_nodup
  ids_nodup := h.queue ▸ hv.ids_nodup
  answers := h.server ▸ hv.answers

theorem Settles.refl (s : Session κ) : Settles s s [] :=
  ⟨rfl, rfl, rfl, rfl, rfl, fun ht => ⟨_, ht, rfl, by simp [attempts]⟩⟩

theorem Settles.trans {jobs jobs' : List Job} (h : Settles s s' jobs) (h' : Settles s' s'' jobs') :
    Settles s s'' (jobs ++ jobs') where
  queue := h'.queue.trans h.queue
  fresh := h'.fresh.trans h.fresh
  server := h'.server.trans h.server
  pending := h'.pending.trans h.pending
  keys := h'.keys.trans h.keys
  tasks := by
    intro id t ht
    obtain ⟨t', ht', hout, hres⟩ := h.tasks ht
    obtain ⟨t'', ht'', hout', hres'⟩ := h'.tasks ht'
    refine ⟨t'', ht'', hout'.trans hout, ?_⟩
    rw [hres', hres, Option.or_assoc, attempts, attempts, attempts, List.filterMap_append,
      List.head?_append]

end Session

namespace SessionM

variable {κ : Type}

theorem run_runJob (job : Job) (s : Session κ)
    (hknown : ∀ id outputs, job = .finish id outputs → ∃ t, Table.find? id s.tasks = some t) :
    ∃ later s', (runJob job).run s = (.ok later, s') ∧ s.Settles s' [job] ∧
      ∀ job ∈ later, ∃ name outputs, job = .tell name outputs := by
  unfold runJob
  cases job with
  | tell name outputs =>
    refine ⟨[], _, rfl, ⟨rfl, rfl, rfl, rfl, rfl, fun ht => ⟨_, ht, rfl, ?_⟩⟩, by simp⟩
    simp [attempts, Job.outputsFor]
  | finish id outputs =>
    obtain ⟨t, ht⟩ := hknown id outputs rfl
    dsimp only
    rw [run_bind_ok (by rw [run_task, ht])]
    cases hres : t.result with
    | some result =>
      refine ⟨[], _, rfl, ⟨rfl, rfl, rfl, rfl, rfl, fun {id' t'} ht' => ⟨t', ht', rfl, ?_⟩⟩, by simp⟩
      by_cases hid : id = id'
      · subst hid
        obtain rfl := some.inj (ht.symm.trans ht')
        rw [hres, some_or]
      · simp [attempts, Job.outputsFor, hid]
    | none =>
      let f : TaskState → TaskState := fun t => { t with result := some outputs, doneObservers := [] }
      refine ⟨_, { s with tasks := Table.update id f s.tasks }, rfl,
        ⟨rfl, rfl, rfl, rfl, Table.map_fst_update id f s.tasks, fun {id' t'} ht' => ?_⟩, ?_⟩
      · dsimp only
        rw [Table.find?_update, ht']
        by_cases hid : id' = id
        · subst hid
          obtain rfl := some.inj (ht.symm.trans ht')
          refine ⟨f t, by simp, rfl, ?_⟩
          simp [attempts, Job.outputsFor, hres, f]
        · have hne : id ≠ id' := Ne.symm hid
          refine ⟨t', by simp [hid], rfl, ?_⟩
          simp [attempts, Job.outputsFor, hne]
      · intro job hjob
        obtain ⟨name, -, rfl⟩ := mem_map.1 hjob
        exact ⟨name, outputs, rfl⟩

theorem run_mapM_runJob (jobs : List Job) (s : Session κ)
    (hknown : ∀ id outputs, .finish id outputs ∈ jobs → ∃ t, Table.find? id s.tasks = some t) :
    ∃ later s', (jobs.mapM runJob).run s = (.ok later, s') ∧ s.Settles s' jobs ∧
      ∀ job ∈ later.flatten, ∃ name outputs, job = .tell name outputs := by
  induction jobs generalizing s with
  | nil => exact ⟨[], s, rfl, .refl s, by simp⟩
  | cons job rest ih =>
    obtain ⟨later, s₁, hjob, hsettles, htell⟩ := run_runJob job s
      fun id outputs h => hknown id outputs (h ▸ mem_cons_self)
    have hknown' : ∀ id outputs, .finish id outputs ∈ rest →
        ∃ t, Table.find? id s₁.tasks = some t := by
      intro id outputs hmem
      obtain ⟨t, ht⟩ := hknown id outputs (mem_cons_of_mem _ hmem)
      obtain ⟨t', ht', -⟩ := hsettles.tasks ht
      exact ⟨t', ht'⟩
    obtain ⟨later', s₂, hrest, hsettles', htell'⟩ := ih s₁ hknown'
    refine ⟨later :: later', s₂, ?_, hsettles.trans hsettles', ?_⟩
    · rw [mapM_cons, run_bind_ok hjob, run_bind_ok hrest]
      rfl
    · rw [flatten_cons]
      intro job' hmem
      exact (mem_append.1 hmem).elim (htell job') (htell' job')

theorem settles_forM_tell (jobs : List Job) (s : Session κ)
    (htell : ∀ job ∈ jobs, ∃ name outputs, job = .tell name outputs) :
    s.Settles ((jobs.forM fun job => do let _ ← runJob job : SessionM κ PUnit).run s).2 [] := by
  induction jobs generalizing s with
  | nil => exact .refl s
  | cons job rest ih =>
    obtain ⟨name, outputs, rfl⟩ := htell job mem_cons_self
    let told : Session κ := { s with trace := { s.trace with
      events := s.trace.events ++ [.notice name [outputsValue outputs]] } }
    have hfirst : s.Settles told [] :=
      ⟨rfl, rfl, rfl, rfl, rfl, fun ht => ⟨_, ht, rfl, by simp [attempts]⟩⟩
    exact hfirst.trans (ih told fun job hjob => htell job (mem_cons_of_mem _ hjob))

theorem settles_runJobs (s : Session κ)
    (hknown : ∀ id outputs, .finish id outputs ∈ s.jobs → ∃ t, Table.find? id s.tasks = some t) :
    Session.Settles { s with jobs := [] } (runJobs.run s).2 s.jobs := by
  obtain ⟨later, s₁, hjobs, hsettles, htell⟩ := run_mapM_runJob s.jobs { s with jobs := [] } hknown
  unfold runJobs
  rw [run_bind_ok (run_get s), run_bind_ok (run_modify _ s), run_bind_ok hjobs]
  have h := hsettles.trans (settles_forM_tell later.flatten s₁ htell)
  rwa [append_nil] at h

end SessionM

end Flowscript
