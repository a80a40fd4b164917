import Flowscript.Session.Queue

/-!
# Listening to the queue

Observers hear how many tasks are left. The code for an empty queue is run when none is left; if it
takes a workflow, it gets one that is entered, and the workflow is queued afterwards unless the
code gives false or fails.
-/

namespace Flowscript.SessionM

variable {κ : Type}

def failureWarning : String := "when_empty callback raised an exception:"

def isFalse : Value → Bool
  | .bool false => true
  | _ => false

/-- Runs code inside a workflow, which is queued unless the code gives false or fails. -/
def runWithFlow (run : Runner κ) (code : EmptyCode κ) : SessionM κ Value := do
  let id ← newFlow plainFlow
  enterFlow id
  tryCatch (do
    let result ← run code.body (some id)
    leaveFlow id code.source (isFalse result)
    return result) fun _ => do
      leaveFlow id code.source true
      warn failureWarning
      return .null

def runEmptyCode (run : Runner κ) (code : EmptyCode κ) : SessionM κ Value := do
  match code.arity with
  | 0 => run code.body none
  | 1 => runWithFlow run code
  | _ => throw .wrongKind

/-- Runs the code if the queue is empty; the code is forgotten once it gives false. -/
def callWhenEmpty (run : Runner κ) (remaining : Value) : SessionM κ Unit := do
  if remaining == .int 0 then
    match (← get).queue.emptyCode with
    | none => pure ()
    | some code =>
      tryCatch (do
        if isFalse (← runEmptyCode run code) then
          setQueue fun q => { q with emptyCode := none }) fun _ => warn failureWarning

def tell (run : Runner κ) (remaining : Value) (l : Listener) : SessionM κ Unit := do
  match l with
  | .emptyCaller => callWhenEmpty run remaining
  | .observer name => emit (.notice name [remaining])

def tellAll (run : Runner κ) : List Listener → SessionM κ Unit
  | [] => return
  | l :: rest => do
    tell run (← get).queue.remaining l
    tellAll run rest

/-- Tells all listeners how many tasks are left. The first of them may add others, which are told
too. -/
def notify (run : Runner κ) : SessionM κ Unit := do
  tellAll run ((← get).queue.listeners.take 1)
  tellAll run ((← get).queue.listeners.drop 1)

def addObserver (name : String) : SessionM κ Nat := do
  setQueue fun q => { q with
    listeners := q.listeners.erase (.observer name) ++ [.observer name] }
  return (← get).queue.listeners.length

def removeObserver (name : String) : SessionM κ Nat := do
  setQueue fun q => { q with listeners := q.listeners.erase (.observer name) }
  return (← get).queue.listeners.length

def outputsValue (outputs : List (Value × Value)) : Value :=
  .dict (outputs.map fun (k, v) => (k.text, v))

/-- Does one job: finishing a task a second time is an error, and observers are told later. -/
def runJob (job : Job) : SessionM κ (List Job) := do
  match job with
  | .tell name outputs =>
    emit (.notice name [outputsValue outputs])
    return []
  | .finish id outputs =>
    let t ← task id
    match t.result with
    | some _ =>
      emit (.notice "loop_error" [.str "InvalidStateError"])
      return []
    | none =>
      setTask id fun t => { t with result := some outputs, doneObservers := [] }
      return t.doneObservers.map fun name => .tell name outputs

def runJobs : SessionM κ Unit := do
  let jobs := (← get).jobs
  modify fun s => { s with jobs := [] }
  let later ← jobs.mapM runJob
  later.flatten.forM fun job => do
    let _ ← runJob job

/-- Leaves it to be done that a task is finished; outputs that arrived one by one count too. -/
def finishTask (id : Nat) (outputs : List (String × Value)) :
    SessionM κ (List (Value × Value)) := do
  let t ← task id
  let all := outputs.foldl (fun acc (k, v) => Table.put (Value.str k) v acc) t.newOutputs
  modify fun s => { s with jobs := s.jobs ++ [.finish id all] }
  return all

def addDoneObserver (id : Nat) (name : String) : SessionM κ Unit := do
  match (← task id).result with
  | some outputs => modify fun s => { s with jobs := s.jobs ++ [.tell name outputs] }
  | none => setTask id fun t => { t with doneObservers := t.doneObservers ++ [name] }

def removeDoneObserver (id : Nat) (name : String) : SessionM κ Nat := do
  let count := (← task id).doneObservers.count name
  setTask id fun t => { t with doneObservers := t.doneObservers.filter (· != name) }
  return count

def addPreviewObserver (id : Nat) (name : String) : SessionM κ Nat := do
  setTask id fun t => { t with previewObservers := t.previewObservers ++ [name] }
  return (← task id).previewObservers.length

def removePreviewObserver (id : Nat) (name : String) : SessionM κ Nat := do
  if !(← task id).previewObservers.contains name then throw .badValue
  setTask id fun t => { t with previewObservers := t.previewObservers.erase name }
  return (← task id).previewObservers.length

end Flowscript.SessionM
