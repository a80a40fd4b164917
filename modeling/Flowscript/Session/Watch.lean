import Flowscript.Preview
import Flowscript.Session.Listen
import Flowscript.Session.Viewer

/-!
# Watching the server

The server tells over a connection how many tasks are left, which results have arrived and how far
the current task has come. If the connection is lost or a message cannot be understood, the watcher
connects again after a while.
-/

namespace Flowscript

inductive Message where
  | text (content : Value)
  | binary (content : Blob)
  | closed
  /-- Something that needs no answer. -/
  | other
  | broken

/-- What is known since the connection was made. -/
structure Watching where
  executing : Bool
  /-- The last news about the progress of a task. -/
  progress : Value

def Watching.start : Watching := ⟨false, .null⟩

namespace Value

def sub (v w : Value) : Except Fault Value :=
  match v.number?, w.number? with
  | some (.inl a), some (.inl b) => .ok (int (a - b))
  | some x, some y => .ok (float ((toBinary x).sub (toBinary y)))
  | _, _ => .error .wrongKind

end Value

namespace SessionM

variable {κ : Type}

/-- How many tasks are left, as a line of the log. -/
def printRemaining : SessionM κ Unit := do
  printLine ("Queue remaining: " ++ (← get).queue.remaining.text)

def taskOf (promptId : Value) : SessionM κ (Option Nat) := do
  if !promptId.hashable then throw .wrongKind
  return Table.find? promptId (← get).queue.tasks

def clearDisplay : SessionM κ Unit := do
  needNotebook
  display [] [("clear", .bool true)]

def showNewResult (output : Value) : SessionM κ Unit := do
  clearDisplay
  showResult (resultOf output)

def isBatch : Value → Bool
  | .result .images _ => true
  | _ => false

def showOutputs (outputs : List (Value × Value)) : SessionM κ Unit := do
  needNotebook
  let sorted ← check (Value.sortByKey outputs)
  let results := sorted.map fun (_, output) => resultOf output
  let batches := results.filter isBatch
  let others := results.filter (!isBatch ·)
  if !results.isEmpty then clearDisplay
  if !batches.isEmpty then showImages (← flattenAll batches) .null plainLayout
  if !others.isEmpty then display (others.map .value) []

def setOutput (id : Nat) (node output wanted : Value) : SessionM κ Unit := do
  if !node.hashable then throw .wrongKind
  setTask id fun t => { t with newOutputs := Table.put node output t.newOutputs }
  if wanted.truthy then showNewResult output

def setOutputs (id : Nat) (outputs wanted : Value) : SessionM κ Unit := do
  match outputs.bare with
  | .dict entries =>
    let all ← finishTask id entries
    if wanted.truthy then showOutputs all
  | _ => throw .wrongKind

def receiveStatus (run : Runner κ) (st : Watching) (content : Value) : SessionM κ Watching := do
  let info ← check ((← check ((← check (content.entry "data")).entry "status")).entry "exec_info")
  let remaining ← check (info.entry "queue_remaining")
  if (← get).queue.remaining != remaining then
    setQueue fun q => { q with remaining := remaining }
    if !st.executing then notify run
    printRemaining
  return st

/-- The queue is empty, so tasks that are left will not be run: they are finished with what they
have. The result is the last of them. -/
def abandonTasks : List (Value × Nat) → Option Nat → SessionM κ (Option Nat)
  | [], last => return last
  | (_, id) :: rest, _ => do
    printLine ("ComfyScript: The queue is empty but " ++ (← taskValue id).text ++
      " has not been executed")
    let _ ← finishTask id []
    abandonTasks rest (some id)

/-- A prompt leaves the queue with its task; if no task is left to run, all others leave it too. The
result is the task that was met last. -/
def dequeue (promptId : Value) : SessionM κ (Option Nat) := do
  let found ← taskOf promptId
  setQueue fun q => { q with tasks := Table.erase promptId q.tasks }
  if (← get).queue.remaining == .int 0 then
    let last ← abandonTasks (← get).queue.tasks found
    setQueue fun q => { q with tasks := [] }
    return last
  else return found

def rememberedOutputs (promptId : Value) : SessionM κ Value := do
  match ← history promptId with
  | none | some .null => return .dict []
  | some h => check (h.entry "outputs")

/-- The task that a prompt is taken for is finished with the outputs that the server remembers. -/
def finishWith (promptId : Value) (last : Option Nat) : SessionM κ Unit := do
  let outputs ← rememberedOutputs promptId
  match last with
  | none => throw .missingField
  | some id => setOutputs id outputs (← get).queue.showTask
  if (← get).queue.showTask.truthy then printRemaining

def receiveDone (run : Runner κ) (st : Watching) (data : Value) : SessionM κ Watching := do
  let promptId ← check (data.entry "prompt_id")
  let last ← dequeue promptId
  notify run
  finishWith promptId last
  return { st with executing := false }

def receiveExecuting (run : Runner κ) (st : Watching) (content : Value) :
    SessionM κ Watching := do
  let data ← check (content.entry "data")
  match ← check (data.entry "node") with
  | .null => receiveDone run st data
  | _ => return st

def receiveOutput (st : Watching) (content : Value) : SessionM κ Watching := do
  let data ← check (content.entry "data")
  match ← taskOf (← check (data.entry "prompt_id")) with
  | none => return st
  | some id =>
    let node ← check (data.entry "node")
    let output ← check (data.entry "output")
    setOutput id node output (← get).queue.showOutput
    if (← get).queue.showOutput.truthy then printRemaining
    return st

def setBar (bar : Option Value) : SessionM κ Unit := modify fun s => { s with bar := bar }

def openBar (value total : Value) : SessionM κ Unit := do
  emit (.notice "bar" [value, total])
  setBar (some value)

def moveBar (reached value : Value) : SessionM κ Unit := do
  let step ← check (value.sub reached)
  emit (.notice "bar_update" [step])
  setBar (some (← check (reached.add step)))

def closeBar : SessionM κ Unit := emit (.notice "bar_close" [])

def advanceBar (value total : Value) : SessionM κ Unit := do
  match (← get).bar with
  | none => pure ()
  | some reached => moveBar reached value
  if value == total then
    closeBar
    setBar none

def showProgress (value total : Value) : SessionM κ Unit := do
  if value == .int 1 then
    if (← get).bar.isSome then closeBar
    openBar value total
  else
    if (← get).bar.isNone then openBar value total
    advanceBar value total

def receiveProgress (st : Watching) (content : Value) : SessionM κ Watching := do
  let data ← check (content.entry "data")
  showProgress (← check (data.entry "value")) (← check (data.entry "max"))
  return { st with progress := data }

def receiveText (run : Runner κ) (st : Watching) (content : Value) : SessionM κ Watching := do
  match (← check (content.entry "type")).text? with
  | some "status" => receiveStatus run st content
  | some "execution_start" => return { st with executing := true }
  | some "executing" => receiveExecuting run st content
  | some "executed" => receiveOutput st content
  | some "progress" => receiveProgress st content
  | _ => return st

def previewWarning : String :=
  "Cannot get preview node, please update the ComfyUI server to at least " ++
    "66831eb6e96cd974fb2d0fc4f299b23c6af16685 (2024-01-02)"

def tellPreview (id : Nat) (node image : Value) : SessionM κ Unit := do
  let text := (← taskValue id).text
  (← task id).previewObservers.forM fun name => emit (.notice name [.str text, node, image])
  if (← get).queue.showPreview.truthy then
    needNotebook
    display [.value image] [("clear", .bool true)]

def receivePreview (st : Watching) (e : BinaryEvent) : SessionM κ Unit := do
  match st.progress.bare with
  | .dict entries =>
    match (Value.lookup "prompt_id" entries).getD .null with
    | .null => warn previewWarning
    | promptId => match ← taskOf promptId with
      | none => throw .missingField
      | some id =>
        let node ← check (st.progress.entry "node")
        let (warnings, image) := e.preview
        warnings.forM warn
        tellPreview id node (← check image)
  | _ => throw .missingField

def receiveBinary (st : Watching) (b : Blob) : SessionM κ Watching := do
  let (e, warnings) ← check (BinaryEvent.ofBlob b)
  warnings.forM warn
  if e.kind == BinaryEvent.previewKind then receivePreview st e
  return st

def receive (run : Runner κ) (st : Watching) (m : Message) : SessionM κ (Option Watching) := do
  match m with
  | .text content => return some (← receiveText run st content)
  | .binary b => return some (← receiveBinary st b)
  | .closed => return none
  | .other => return some st
  | .broken => throw .unreachable

def connect : SessionM κ Unit := do
  let url := (← get).baseUrl ++ "ws"
  mark fun t => { t with
    requests := t.requests ++ [⟨"WS", url, some (.dict [("clientId", clientId)]), none⟩] }
  setQueue fun q => { q with remaining := .int 0 }

def receiveOrFail (run : Runner κ) (st : Watching) (m : Message) :
    SessionM κ (Option Watching) :=
  tryCatch (receive run st m) fun _ => do
    printLine "ComfyScript: Failed to watch, will retry in 5 seconds: <error>"
    return none

/-- Messages that arrive in order. After the connection was lost there is a pause, and a new
connection is made if there is more to come. -/
def watchFrom (run : Runner κ) : Watching → List Message → SessionM κ Unit
  | _, [] => return
  | st, m :: rest => do
    match ← receiveOrFail run st m with
    | some st => watchFrom run st rest
    | none => do
      emit (.notice "sleep" [.int 5])
      if !rest.isEmpty then connect
      watchFrom run .start rest

def watch (run : Runner κ) (messages : List Message) : SessionM κ Unit := do
  setBar none
  connect
  watchFrom run .start messages
  runJobs

def startWatch (node task preview : Value) : SessionM κ Unit := do
  if node.truthy || task.truthy || preview.truthy then
    if (← get).hasNotebook then
      setQueue fun q => { q with showOutput := node, showTask := task, showPreview := preview }
    else printLine "ComfyScript: IPython is not available, cannot display task results"
  if !(← get).queue.watched then
    emit (.notice "thread" [.str "_watch", .bool true])
    setQueue fun q => { q with watched := true }

def choose (choice old : Value) : Value :=
  match choice with
  | .null => old
  | v => v

/-- Sets what is shown while watching; `all` stands for each choice that is left open. -/
def watchDisplay (all preview output task : Value) : SessionM κ Unit :=
  setQueue fun q => { q with
    showPreview := choose (choose preview all) q.showPreview
    showOutput := choose (choose output all) q.showOutput
    showTask := choose (choose task all) q.showTask }

end SessionM

end Flowscript
