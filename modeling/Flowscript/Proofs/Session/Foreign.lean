import Flowscript.Proofs.Session.Finishing

/-!
# News about foreign prompts

The server also tells about prompts that others have queued. The output of a node of such a prompt is
passed over. A preview of it ends the connection, for there is no task to show it to. So does the
news that it is done, unless no task is left to run: then the task that leaves the queue last is
taken for its task, and is left to be finished with the outputs of the foreign prompt.
-/

namespace Flowscript

open List

namespace Message

/-- The message brings the output of a node of a prompt. -/
def Brings (m : Message) (p : String) : Prop := ∃ node output, m.output? = some (p, node, output)

/-- The message is a preview, and the last news about progress is about a node of a prompt. -/
def Previews (m : Message) (st : Watching) (p : String) : Prop :=
  ∃ b e warnings image entries node, m = .binary b ∧ BinaryEvent.ofBlob b = .ok (e, warnings) ∧
    e.kind = BinaryEvent.previewKind ∧ e.preview.2 = .ok image ∧ st.progress = .dict entries ∧
    Value.lookup "prompt_id" entries = some (.str p) ∧ Value.lookup "node" entries = some node

def About (m : Message) (st : Watching) (p : String) : Prop :=
  m.Brings p ∨ m.Finishes p ∨ m.Previews st p

variable {m : Message} {st : Watching} {p : String}

theorem not_brings_of_finishes (h : m.Finishes p) : ¬ m.Brings p := by
  obtain ⟨content, kind, data, rfl, hkind, hexecuting, -⟩ := h
  rintro ⟨node, output, hm⟩
  obtain ⟨kind', -, -, hkind', hexecuted, -⟩ := Message.output?_text.1 hm
  obtain rfl := Except.ok.inj (hkind.symm.trans hkind')
  simp [hexecuting] at hexecuted

theorem not_finishes_of_previews (h : m.Previews st p) : ¬ m.Finishes p := by
  obtain ⟨b, -, -, -, -, -, rfl, -⟩ := h
  rintro ⟨content, -, -, hm, -⟩
  cases hm

theorem not_brings_of_previews (h : m.Previews st p) : ¬ m.Brings p := by
  obtain ⟨b, -, -, -, -, -, rfl, -⟩ := h
  rintro ⟨node, output, hm⟩
  cases hm

end Message

namespace Session

variable {κ : Type} {s : Session κ} {p : String}

def asked (run : Runner κ) (s : Session κ) (p : String) : Session κ :=
  ((do
    let _ ← SessionM.dequeue (.str p)
    SessionM.notify run
    SessionM.rememberedOutputs (.str p) : SessionM κ Value).run s).2

/-- Outputs can be shown once a task is left to be finished with them, if they are to be shown. -/
def Shows (s : Session κ) (id : Nat) (outputs : List (Value × Value)) : Prop :=
  s.queue.showTask.truthy = true →
    ((SessionM.showOutputs outputs).run { s with jobs := s.jobs ++ [.finish id outputs] }).1 = .ok ()

theorem lastMet_of_foreign (h : Table.find? (.str p) s.queue.tasks = none) :
    s.lastMet (.str p) = (s.swept (.str p)).getLast?.map Prod.snd := by
  rw [lastMet, h, Option.or_none]

theorem doneWith_of_swept {id : Nat} {outputs : List (String × Value)} {all : List (Value × Value)}
    (h : all ∈ s.doneWith p outputs id) :
    all = s.recordedFor id ∨
      s.lastMet (.str p) = some id ∧ all = updated (s.recordedFor id) outputs := by
  obtain h | h := mem_append.1 h
  · obtain ⟨entry, hentry, rfl⟩ := mem_map.1 h
    have hid : entry.2 = id := by simpa using (mem_filter.1 hentry).2
    exact .inl (by rw [hid])
  · split at h
    · rename_i hlast
      exact .inr ⟨hlast, mem_singleton.1 h⟩
    · cases h

end Session

namespace SessionM

variable {κ : Type} {run : Runner κ} {s : Session κ} {st : Watching} {m : Message} {p : String}

theorem run_receive_of_brings (run : Runner κ) (st : Watching) (hv : s.Valid) (hm : m.Brings p)
    (hforeign : Table.find? (.str p) s.queue.tasks = none) :
    (receive run st m).run s = (.ok (some st), s) := by
  obtain ⟨node, output, hm⟩ := hm
  cases m with
  | text content =>
    obtain ⟨kind, data, promptId, hkind, hexecuted, hdata, hprompt, hp, -⟩ :=
      Message.output?_text.1 hm
    have htask : (taskOf promptId).run s = (.ok none, s) := by
      rw [run_taskOf hv (hashable_of_text? hp), hp]
      simp [hforeign]
    have houtput : (receiveOutput st content).run s = (.ok st, s) := by
      unfold receiveOutput
      rw [hdata, run_bind_ok (run_check_ok data s), hprompt, run_bind_ok (run_check_ok promptId s),
        run_bind_ok htask]
      rfl
    have htext : (receiveText run st content).run s = (.ok st, s) := by
      unfold receiveText
      rw [hkind, run_bind_ok (run_check_ok kind s), hexecuted]
      exact houtput
    exact run_bind_ok htext
  | binary | closed | other | broken => cases hm

theorem run_receive_of_previews (run : Runner κ) (hv : s.Valid) (hm : m.Previews st p)
    (hforeign : Table.find? (.str p) s.queue.tasks = none) :
    (receive run st m).run s = (.error .missingField, s) := by
  obtain ⟨b, e, warnings, image, entries, node, rfl, hblob, hkind, -, hprogress, hprompt, -⟩ := hm
  have hquiet : warnings = [] := by
    unfold BinaryEvent.ofBlob at hblob
    obtain ⟨kind, -, hblob⟩ := ok_of_bind hblob
    obtain ⟨rfl, rfl⟩ := Prod.mk.inj (Except.ok.inj hblob)
    obtain rfl : kind = BinaryEvent.previewKind := hkind
    rfl
  have htask : (taskOf (.str p)).run s = (.ok none, s) := by
    rw [run_taskOf hv (show (Value.str p).hashable = true from rfl)]
    simp [Value.text?, hforeign]
  have hpreview : (receivePreview st e).run s = (.error .missingField, s) := by
    unfold receivePreview
    rw [hprogress]
    simp only [Value.bare, hprompt, Option.getD_some]
    rw [run_bind_ok htask]
    rfl
  have hbinary : (receiveBinary st b).run s = (.error .missingField, s) := by
    unfold receiveBinary
    rw [hblob, run_bind_ok (run_check_ok _ s), hquiet]
    simp only [hkind, beq_self_eq_true, if_true]
    exact (run_bind_ok (show ([].forM warn : SessionM κ PUnit).run s = (.ok (), s) from rfl)).trans
      (run_bind_error hpreview)
  exact run_bind_error hbinary

theorem run_printIfShown (s : Session κ) :
    ∃ s', (get >>= fun s' => if s'.queue.showTask.truthy then printRemaining else pure () :
      SessionM κ Unit).run s = (.ok (), s') := by
  rw [run_bind_ok (run_get s)]
  split
  · exact ⟨_, rfl⟩
  · exact ⟨_, rfl⟩

theorem finishWith_ok_iff {promptId : Value} {last : Nat} {s' : Session κ} {t : TaskState}
    {remembered : List (String × Value)}
    (hremembered : (rememberedOutputs promptId).run s = (.ok (.dict remembered), s'))
    (ht : Table.find? last s'.tasks = some t) :
    ((finishWith promptId (some last)).run s).1 = .ok () ↔
      s'.Shows last (updated t.newOutputs remembered) := by
  rw [run_finishWith hremembered ht, Session.Shows]
  cases hshow : s'.queue.showTask.truthy with
  | false =>
    obtain ⟨s'', hprint⟩ := run_printIfShown
      { s' with jobs := s'.jobs ++ [.finish last (updated t.newOutputs remembered)] }
    refine iff_of_true (congrArg Prod.fst hprint) fun h => ?_
    cases h
  | true =>
    simp only [if_true, true_implies]
    rcases h : (showOutputs (updated t.newOutputs remembered)).run
        { s' with jobs := s'.jobs ++ [.finish last (updated t.newOutputs remembered)] } with ⟨e | u, shown⟩
    · rw [run_bind_error h]
    · obtain ⟨s'', hprint⟩ := run_printIfShown shown
      rw [run_bind_ok h, hprint]

theorem receive_finishes_ok_iff (hrun : run.Calm) (hv : s.Valid) (hm : m.Finishes p)
    {outputs : List (String × Value)} (hremembered : s.remembered run p = .ok (.dict outputs)) :
    (∃ st', ((receive run st m).run s).1 = .ok (some st')) ↔ ∃ last, s.lastMet (.str p) = some last ∧
      (s.asked run p).Shows last (updated (s.recordedFor last) outputs) := by
  obtain ⟨data, hprompt, hreceive⟩ := run_receive_finishes (κ := κ) hm
  obtain ⟨trace, s₂, hdequeue, hnotify, hdequeued, hnotified⟩ :=
    exists_notified hrun hv (show (Value.str p).hashable = true from rfl)
  have hasked : (rememberedOutputs (.str p)).run s₂ = (.ok (.dict outputs), s.asked run p) := by
    unfold Session.remembered at hremembered
    unfold Session.asked
    rw [run_bind_ok hdequeue, run_bind_ok hnotify] at hremembered ⊢
    exact Prod.ext hremembered rfl
  have hkept := calm_rememberedOutputs (F := fun _ => False) (.str p) s₂ hnotified.valid
  rw [hasked] at hkept
  -- What is handled well depends on the last step only.
  have hdone : (∃ st', ((receive run st m).run s).1 = .ok (some st')) ↔
      ((finishWith (.str p) (s.lastMet (.str p))).run s₂).1 = .ok () := by
    unfold receiveDone at hreceive
    rw [hreceive, run_bind, hprompt, run_bind_ok (run_check_ok _ s), run_bind_ok hdequeue,
      run_bind_ok hnotify, ← run_bind]
    rcases h : (finishWith (.str p) (s.lastMet (.str p))).run s₂ with ⟨e | u, s₃⟩
    · rw [run_bind_error (run_bind_error h)]
      simp
    · rw [run_bind, run_bind_ok h]
      exact iff_of_true ⟨_, rfl⟩ rfl
  rw [hdone]
  cases hlast : s.lastMet (.str p) with
  | none =>
    have hfail : (finishWith (.str p) none).run s₂ = (.error .missingField, s.asked run p) := by
      unfold finishWith
      rw [run_bind_ok hasked]
      rfl
    simp [hfail]
  | some last =>
    -- The task is still known, with what was recorded for it, when the server has answered.
    obtain ⟨t, ht⟩ := hv.find?_of_registered (Session.left_of_lastMet trace hv hlast).1
    obtain ⟨t', ht', hout, -⟩ :=
      (hdequeued.trans ((hnotified.trans hkept).mono fun _ => False.elim)).recorded ht
    have hrecorded : s.recordedFor last = t'.newOutputs := by rw [Session.recordedFor_eq ht, hout]
    simp [finishWith_ok_iff hasked ht', hrecorded]

end SessionM

namespace Watched

variable {κ : Type} {run : Runner κ} {w : Watched κ} {m : Message} {p : String}

def Kept (run : Runner κ) (w : Watched κ) (m : Message) : Prop :=
  ∃ st, (perform run w (.message m)).watching = some st

/-- A message gives the tasks in the queue nothing that is not theirs: no output is recorded for them,
they are left to be finished at most with what was recorded for them, and no preview is shown. -/
structure Spares (run : Runner κ) (w : Watched κ) (m : Message) : Prop where
  recorded : ∀ id, w.session.Registered id →
    (perform run w (.message m)).session.recordedFor id = w.session.recordedFor id
  finished : ∃ queued, (perform run w (.message m)).jobs = w.jobs ++ queued ∧
    ∀ id, ∀ outputs ∈ attempts id queued, outputs = w.session.recordedFor id
  unshown : ∀ b, m = .binary b →
    ∃ pause, (perform run w (.message m)).session.trace.events = w.resumed.trace.events ++ pause ∧
      ∀ event ∈ pause, event = .notice "sleep" [.int 5]

theorem recordedFor_resumed (w : Watched κ) (id : Nat) :
    w.resumed.recordedFor id = w.session.recordedFor id := by
  rw [Session.recordedFor, (resumed_eq w).2.1, Session.recordedFor]

theorem perform_of_ok {st : Option Watching} {s : Session κ}
    (h : (SessionM.receive run (w.watching.getD .start) m).run w.resumed = (.ok st, s)) :
    (perform run w (.message m)).watching = st ∧
      (st.isSome → (perform run w (.message m)).session = s) := by
  have hreceive : (SessionM.receiveOrFail run (w.watching.getD .start) m).run w.resumed =
      (.ok st, s) := by
    unfold SessionM.receiveOrFail
    rw [run_tryCatch, h]
  rw [perform_of_run (a := .message m) (SessionM.run_receiveNext (run_resume w) hreceive)]
  exact ⟨rfl, fun hst => if_pos hst⟩

theorem perform_of_error {e : Fault} {s : Session κ}
    (h : (SessionM.receive run (w.watching.getD .start) m).run w.resumed = (.error e, s)) :
    (perform run w (.message m)).watching = none ∧ ∃ log,
      (perform run w (.message m)).session = { s with trace := { s.trace with
        log := log
        events := s.trace.events ++ [.notice "sleep" [.int 5]] } } := by
  have hreceive : ∃ log, (SessionM.receiveOrFail run (w.watching.getD .start) m).run w.resumed =
      (.ok none, { s with trace := { s.trace with log := log } }) := by
    unfold SessionM.receiveOrFail
    rw [run_tryCatch, h]
    exact ⟨_, rfl⟩
  obtain ⟨log, hreceive⟩ := hreceive
  rw [perform_of_run (a := .message m) (SessionM.run_receiveNext (run_resume w) hreceive)]
  exact ⟨rfl, log, rfl⟩

theorem kept_iff : w.Kept run m ↔
    ∃ st, ((SessionM.receive run (w.watching.getD .start) m).run w.resumed).1 = .ok (some st) := by
  unfold Kept
  rcases h : (SessionM.receive run (w.watching.getD .start) m).run w.resumed with ⟨e | st, s⟩
  · simp [(perform_of_error h).1]
  · simp [(perform_of_ok h).1]

theorem exists_queued_iff (hrun : run.Calm) (hw : w.Sane) (P : Nat → List (Value × Value) → Prop)
    {new : Nat → List (List (Value × Value))}
    (hnew : ∀ id, attempts id (perform run w (.message m)).jobs = attempts id w.jobs ++ new id) :
    (∃ queued, (perform run w (.message m)).jobs = w.jobs ++ queued ∧
      ∀ id, ∀ outputs ∈ attempts id queued, P id outputs) ↔ ∀ id, ∀ outputs ∈ new id, P id outputs := by
  have hqueued : ∀ queued, (perform run w (.message m)).jobs = w.jobs ++ queued →
      ∀ id, attempts id queued = new id := by
    intro queued hjobs id
    have h := hnew id
    rw [hjobs, attempts_append] at h
    exact append_cancel_left h
  constructor
  · rintro ⟨queued, hjobs, hall⟩ id
    rw [← hqueued queued hjobs id]
    exact hall id
  · intro hall
    obtain ⟨queued, -, hjobs⟩ := advances_perform hrun hw.valid (a := .message m) (by simp)
    refine ⟨queued, hjobs, fun id => ?_⟩
    rw [hqueued queued hjobs id]
    exact hall id

theorem spares_of_same (hrun : run.Calm) (hw : w.Sane) (pause : List Event)
    (htasks : (perform run w (.message m)).session.tasks = w.session.tasks)
    (hjobs : (perform run w (.message m)).session.jobs = w.session.jobs)
    (hevents : (perform run w (.message m)).session.trace.events = w.resumed.trace.events ++ pause)
    (hpause : ∀ event ∈ pause, event = .notice "sleep" [.int 5]) : w.Spares run m where
  recorded := fun id _ => by rw [Session.recordedFor, htasks, Session.recordedFor]
  finished := by
    obtain ⟨queued, hadvances, hall⟩ := advances_perform hrun hw.valid (a := .message m) (by simp)
    have hnone : queued = [] := by
      have h := hadvances.jobs
      rw [hjobs] at h
      exact self_eq_append_right.1 h
    refine ⟨queued, hall, ?_⟩
    simp [hnone, attempts]
  unshown := fun _ _ => ⟨pause, hevents, hpause⟩

theorem spares_of_brings (hrun : run.Calm) (hw : w.Sane) (hm : m.Brings p)
    (hforeign : Table.find? (.str p) w.session.queue.tasks = none) :
    w.Kept run m ∧ w.Spares run m := by
  obtain ⟨hjobs, htasks, hqueue⟩ := resumed_eq w
  have hreceive := SessionM.run_receive_of_brings run (w.watching.getD .start)
    hw.valid_resumed hm (hqueue ▸ hforeign)
  have hsession := (perform_of_ok hreceive).2 rfl
  refine ⟨kept_iff.2 ⟨_, congrArg Prod.fst hreceive⟩, ?_⟩
  refine spares_of_same hrun hw [] ?_ ?_ ?_ (by simp)
  · rw [hsession, htasks]
  · rw [hsession, hjobs]
  · rw [hsession, append_nil]

theorem spares_of_previews (hrun : run.Calm) (hw : w.Sane)
    (hm : m.Previews (w.watching.getD .start) p)
    (hforeign : Table.find? (.str p) w.session.queue.tasks = none) :
    ¬ w.Kept run m ∧ w.Spares run m := by
  obtain ⟨hjobs, htasks, hqueue⟩ := resumed_eq w
  have hreceive := SessionM.run_receive_of_previews run hw.valid_resumed hm (hqueue ▸ hforeign)
  obtain ⟨-, log, hsession⟩ := perform_of_error hreceive
  refine ⟨?_, ?_⟩
  · rw [kept_iff, hreceive]
    simp
  · refine spares_of_same hrun hw [.notice "sleep" [.int 5]] ?_ ?_ ?_ (by simp)
    · rw [hsession, ← htasks]
    · rw [hsession, ← hjobs]
    · rw [hsession]

theorem spares_iff_of_finishes (hrun : run.Calm) (hw : w.Sane) (hm : m.Finishes p)
    {outputs : List (String × Value)}
    (hremembered : w.resumed.remembered run p = .ok (.dict outputs)) :
    w.Spares run m ↔ ∀ id ∈ w.resumed.lastMet (.str p),
      updated (w.session.recordedFor id) outputs = w.session.recordedFor id := by
  have hfinished := exists_queued_iff hrun hw
    (fun id outputs => outputs = w.session.recordedFor id)
    (attempts_perform_done hrun hw hm hremembered)
  have hrecorded : ∀ id, w.session.Registered id →
      (perform run w (.message m)).session.recordedFor id = w.session.recordedFor id := by
    intro id hid
    obtain ⟨data, hprompt, -, hkeeps⟩ := keeps_perform_done hrun hw hm
    obtain ⟨_, hdone, -⟩ := SessionM.keeps_receiveDone_of_hashable hrun (w.watching.getD .start)
      hw.valid_resumed hprompt rfl
    have hresumed : w.resumed.Registered id := by
      rwa [Session.Registered, (resumed_eq w).2.2]
    have hall := (hdone.mono fun _ _ => trivial).trans (hkeeps.mono fun _ _ => trivial)
    rw [hall.recordedFor_eq hw.valid_resumed hresumed, recordedFor_resumed]
  constructor
  · intro h id hlast
    refine hfinished.1 h.finished id _ ?_
    rw [← recordedFor_resumed]
    exact mem_append_right _ (by simp [show w.resumed.lastMet (.str p) = some id from hlast])
  · intro h
    refine ⟨hrecorded, hfinished.2 fun id all hall => ?_, ?_⟩
    · rw [← recordedFor_resumed]
      obtain hown | ⟨hlast, hown⟩ := Session.doneWith_of_swept hall
      · exact hown
      · rw [hown, recordedFor_resumed, h id hlast]
    · rintro b rfl
      obtain ⟨content, -, -, hm, -⟩ := hm
      cases hm

/-- What news about a foreign prompt does. The connection is kept if it is the output of a node; if the
prompt is done, it is kept only if other tasks leave the queue and the last of them can be shown.
The tasks are spared, but that last one is left to be finished with the outputs of the prompt. -/
theorem kept_and_spares_iff {run : Runner κ} (hrun : run.Calm) {s : Session κ} (hs : s.Idle)
    (before : List Action) {m : Message} {p : String}
    (hm : m.About ((performAll run (of s) before).watching.getD .start) p)
    (hforeign : Table.find? (.str p) (performAll run (of s) before).session.queue.tasks = none)
    (outputs : List (String × Value))
    (hremembered : m.Finishes p →
      (performAll run (of s) before).resumed.remembered run p = .ok (.dict outputs)) :
    let w := performAll run (of s) before
    let last := (w.resumed.swept (.str p)).getLast?.map Prod.snd
    (w.Kept run m ↔ m.Brings p ∨ m.Finishes p ∧ ∃ id, last = some id ∧
      (w.resumed.asked run p).Shows id (updated (w.session.recordedFor id) outputs)) ∧
    (w.Spares run m ↔ (m.Finishes p → ∀ id, last = some id →
      updated (w.session.recordedFor id) outputs = w.session.recordedFor id)) := by
  intro w last
  have hw : w.Sane := sane_performAll hrun (sane_of_idle hs) before
  obtain hbrings | hfinishes | hpreviews := hm
  · obtain ⟨hkept, hspares⟩ := spares_of_brings hrun hw hbrings hforeign
    refine ⟨iff_of_true hkept (.inl hbrings), iff_of_true hspares fun hfinishes => ?_⟩
    exact absurd hbrings (Message.not_brings_of_finishes hfinishes)
  · have hlast : w.resumed.lastMet (.str p) = last :=
      Session.lastMet_of_foreign ((resumed_eq w).2.2 ▸ hforeign)
    constructor
    · rw [kept_iff, SessionM.receive_finishes_ok_iff hrun hw.valid_resumed hfinishes
        (hremembered hfinishes), hlast]
      simp only [recordedFor_resumed, hfinishes, Message.not_brings_of_finishes hfinishes, false_or,
        true_and]
    · rw [spares_iff_of_finishes hrun hw hfinishes (hremembered hfinishes), hlast]
      simp only [hfinishes, true_implies, Option.mem_def]
  · obtain ⟨hkept, hspares⟩ := spares_of_previews hrun hw hpreviews hforeign
    have hnot := Message.not_finishes_of_previews hpreviews
    refine ⟨iff_of_false hkept ?_, iff_of_true hspares fun hfinishes => absurd hfinishes hnot⟩
    rintro (hbrings | ⟨hfinishes, -⟩)
    · exact Message.not_brings_of_previews hpreviews hbrings
    · exact hnot hfinishes

section Example

def sharedServer : Server where
  routes := [
    ("POST prompt", [.answer (.ofJson (.dict [("prompt_id", .str "p"), ("number", .int 0)]))]),
    ("GET history/f", [
      .answer (.ofJson (.dict [("f", .dict [("outputs", .dict [("b", .str "foreign")])])]))])]

def foreignDone : Message := news "executing" [("node", .null), ("prompt_id", .str "f")]

def foreignProgress : Action := .message (news "progress"
  [("value", .int 1), ("max", .int 2), ("prompt_id", .str "f"), ("node", .str "b")])

def previewNews : Message := .binary ⟨[0, 0, 0, 1, 0, 0, 0, 2], some (.blank 4 4)⟩

def oneLeft : Action :=
  .message (news "status" [("status", .dict [("exec_info", .dict [("queue_remaining", .int 1)])])])

def shared (before : List Action) : Watched Unit :=
  performAll idleCode (of (.new sharedServer "http://host/" false)) before

theorem finishes_foreignDone : foreignDone.Finishes "f" :=
  ⟨_, _, _, rfl, rfl, rfl, rfl, rfl, rfl⟩

theorem previews_previewNews :
    previewNews.Previews ((shared [.connect, queueOutput, foreignProgress]).watching.getD .start) "f" :=
  ⟨_, _, _, _, _, _, rfl, rfl, rfl, rfl, rfl, rfl, rfl⟩

theorem idle_sharedServer : (Session.new sharedServer "http://host/" false : Session Unit).Idle where
  below := by simp [Session.new]
  queue := rfl
  jobs := rfl
  answers := by
    intro route replies hroute r hr body v hbody hv
    simp only [Session.new, sharedServer, mem_cons, not_mem_nil, or_false,
      Prod.mk.injEq] at hroute
    obtain ⟨-, rfl⟩ | ⟨-, rfl⟩ := hroute <;>
      obtain rfl := Reply.answer.inj (mem_singleton.1 hr) <;> cases hbody <;> cases hv
    exact ⟨_, rfl⟩

/-- With a task left to run, the connection is lost when a foreign prompt is done; with none left, the
task in the queue is left to be finished with the outputs of the foreign prompt. A preview of it
ends the connection too. -/
theorem kept_and_spares_iff_sharedServer :
    (¬ (shared [.connect, queueOutput, oneLeft]).Kept idleCode foreignDone ∧
      (shared [.connect, queueOutput, oneLeft]).Spares idleCode foreignDone) ∧
    ((shared [.connect, queueOutput]).Kept idleCode foreignDone ∧
      ¬ (shared [.connect, queueOutput]).Spares idleCode foreignDone) ∧
    ¬ (shared [.connect, queueOutput, foreignProgress]).Kept idleCode previewNews := by
  refine ⟨?_, ?_, ?_⟩
  · obtain ⟨hkept, hspares⟩ := kept_and_spares_iff calm_idleCode idle_sharedServer
      [.connect, queueOutput, oneLeft] (.inr (.inl finishes_foreignDone)) rfl
      [("b", .str "foreign")] fun _ => rfl
    refine ⟨fun h => ?_, hspares.2 fun _ id hid => ?_⟩
    · obtain hbrings | ⟨-, id, hid, -⟩ := hkept.1 h
      · exact Message.not_brings_of_finishes finishes_foreignDone hbrings
      · cases hid
    · cases hid
  · obtain ⟨hkept, hspares⟩ := kept_and_spares_iff calm_idleCode idle_sharedServer
      [.connect, queueOutput] (.inr (.inl finishes_foreignDone)) rfl
      [("b", .str "foreign")] fun _ => rfl
    refine ⟨hkept.2 (.inr ⟨finishes_foreignDone, 1, rfl, fun h => ?_⟩), fun h => ?_⟩
    · cases h
    · have hsame := hspares.1 h finishes_foreignDone 1 rfl
      cases hsame
  · have hnot := Message.not_finishes_of_previews previews_previewNews
    obtain ⟨hkept, -⟩ := kept_and_spares_iff calm_idleCode idle_sharedServer
      [.connect, queueOutput, foreignProgress] (.inr (.inr previews_previewNews)) rfl [] fun h =>
        absurd h hnot
    intro h
    obtain hbrings | ⟨hfinishes, -⟩ := hkept.1 h
    · exact Message.not_brings_of_previews previews_previewNews hbrings
    · exact hnot hfinishes

end Example

end Watched

end Flowscript
