import Flowscript.Session.Call

/-!
# Queueing

Outputs and workflows are sent to the server as prompts, and each prompt that is accepted becomes a
task. A workflow that is entered collects the outputs of output nodes, and is queued when it is
left, unless it is left by a failure.
-/

namespace Flowscript.SessionM

variable {κ : Type}

def clientId : Value := .str "CLIENT"

def cancelCurrent : SessionM κ Unit := do
  let r ← request "POST" "interrupt" none (some (.dict [("client_id", clientId)]))
  if !r.succeeded then
    printLine ("ComfyScript: Failed to interrupt current task: " ++ r.describe)

def cancelRemaining : SessionM κ Unit := do
  let r ← request "POST" "queue" none
    (some (.dict [("clear", .bool true), ("client_id", clientId)]))
  if !r.succeeded then printLine ("ComfyScript: Failed to clear queue: " ++ r.describe)

def cancelAll : SessionM κ Unit := do
  cancelRemaining
  cancelCurrent

def history (promptId : Value) : SessionM κ (Option Value) := do
  let r ← request "GET" ("history/" ++ promptId.text) none none
  if r.succeeded then
    match (← check r.body).bare with
    | .dict entries =>
      if !promptId.hashable then throw .wrongKind
      return promptId.text?.bind fun id => Value.lookup id entries
    | _ => throw .missingField
  else
    printLine ("ComfyScript: Failed to get history: " ++ r.describe)
    return none

/-- The prompt of a group of outputs, where a workflow may stand for its own. -/
def promptOf (outputs : List Value) : SessionM κ Prompt := do
  match outputs with
  | [.workflow id] => check (Prompt.ofOutputs (← flow id).outputs)
  | outputs => check (Prompt.ofOutputs outputs)

/-- The outputs that a value stands for: its items if it has any, or itself. -/
def outputsOf (v : Value) : Except Fault (List Value) := if v.iterable then v.iterate else .ok [v]

def promptFor (workflow : Value) : SessionM κ Prompt := do
  match workflow with
  | .workflow id => promptOf (← flow id).outputs
  | .output .. => promptOf [workflow]
  | v => if v.iterable then promptOf (← check (outputsOf v)) else throw (.badWorkflow v)

def newTask (promptId number : Value) (ids : IdTable) : SessionM κ Nat := do
  let id ← freshId
  modify fun s => { s with tasks := s.tasks ++ [(id, ⟨number, promptId, ids, [], none, [], []⟩)] }
  return id

def taskValue (id : Nat) : SessionM κ Value := do
  let t ← task id
  return .task id t.number t.promptId

def extraData (save : Bool) (source : Value) : Value :=
  .dict (if save then [("extra_pnginfo", .dict [("ComfyScriptSource", source)])] else [])

def enqueue (promptId number : Value) (ids : IdTable) : SessionM κ Value := do
  let id ← newTask promptId number ids
  if !promptId.hashable then throw .wrongKind
  setQueue fun q => { q with tasks := Table.put promptId id q.tasks }
  taskValue id

def put (workflow source : Value) : SessionM κ Value := do
  let prompt ← promptFor workflow
  let r ← request "POST" "prompt" none (some (.dict [
    ("prompt", prompt.toValue),
    ("extra_data", extraData (← get).saveSource.truthy source),
    ("client_id", clientId)]))
  if r.succeeded then
    let answer ← check r.body
    let promptId ← check (answer.entry "prompt_id")
    enqueue promptId (← check (answer.entry "number")) prompt.ids
  else
    printLine ("ComfyScript: Failed to queue prompt: " ++ "<Response " ++ r.status.text ++ ">" ++
      r.describe)
    return .null

def newFlow (f : Flow) : SessionM κ Nat := do
  let id ← freshId
  modify fun s => { s with flows := s.flows ++ [(id, f)] }
  return id

/-- A workflow without outputs that is queued when it is left. -/
def plainFlow : Flow := ⟨[], true, false, false, false, .null⟩

/-- The place where outputs are collected can be reached by one of its operations. A data type of
the same name hides the place, and an enumeration that is attached to a node of the same name takes
the place of the operation, which then fails. -/
def checkHook (operation : String) (failure : Fault) : SessionM κ Unit := do
  match Table.find? "Node" (← get).vars with
  | none => pure ()
  | some (.node name _) =>
    let attached := ((Table.find? name (← get).nodes).map NodeEntry.attached).getD []
    if Table.has operation attached then throw failure
  | some _ => throw .missingField

def enterFlow (id : Nat) : SessionM κ Unit := do
  setFlow id fun f => { f with outputs := [] }
  checkHook "set_output_hook" .badValue
  if (← get).hook.isSome then throw .hookInUse
  modify fun s => { s with hook := some id }

def clearHook : SessionM κ Unit := do
  checkHook "clear_output_hook" .wrongKind
  modify fun s => { s with hook := none }

def remembersTask : Value → Bool
  | .output .. | .task .. | .result .. | .workflow _ | .node _ | .image .. | .member .. |
    .record _ | .object _ => true
  | _ => false

def setOutputTasks (task : Value) : List Value → SessionM κ Unit
  | [] => return
  | v :: rest => do
    match v with
    | .output id .. => modify fun s => { s with outputTasks := Table.put id task s.outputTasks }
    | .workflow id => setFlow id fun f => { f with task := task }
    | v => if !remembersTask v then throw .missingField
    setOutputTasks task rest

def queueFlow (id : Nat) (source : Value) : SessionM κ Value := do
  let f ← flow id
  if f.cancelAll then cancelAll
  else if f.cancelRemaining then cancelRemaining
  let t ← put (.workflow id) source
  setFlow id fun f => { f with task := t }
  setOutputTasks t (← flow id).outputs
  return t

def finished (id : Nat) : SessionM κ (List (Value × Value)) := do
  match (← task id).result with
  | some outputs => return outputs
  | none => throw .pending

def leaveFlow (id : Nat) (source : Value) (failed : Bool) : SessionM κ Unit := do
  clearHook
  let f ← flow id
  if !failed && f.queueOnExit then
    match ← queueFlow id source with
    | .task t _ _ => if f.waitOnExit then let _ ← finished t
    | _ => pure ()

def results (id : Nat) : SessionM κ (List Value) := do
  return (← finished id).map fun (_, output) => resultOf output

/-- The result of an output in a task: as soon as it arrived, or else when the task is finished. -/
def resultFor (id : Nat) (output : Value) : SessionM κ Value := do
  match output with
  | .output _ _ _ call _ _ _ =>
    let t ← task id
    match t.ids.id? call with
    | none => return .null
    | some nodeId =>
      match Table.find? (Value.str nodeId) t.newOutputs with
      | some o => return resultOf o
      | none => match Table.find? (Value.str nodeId) (← finished id) with
        | some o => return resultOf o
        | none => return .null
  | _ => throw .missingField

def outputTask (output : Value) : SessionM κ Value := do
  match output with
  | .output id .. => return (Table.find? id (← get).outputTasks).getD .null
  | .workflow id => return (← flow id).task
  | _ => throw .missingField

def ensureTask (output source : Value) : SessionM κ Value := do
  match ← outputTask output with
  | .null => do
    let t ← put output source
    setOutputTasks t [output]
    return t
  | t => return t

def resultIn (t output : Value) : SessionM κ Value := do
  match t with
  | .task id _ _ => resultFor id output
  | _ => throw .missingField

def waitOutput (output source : Value) : SessionM κ Value := do
  match output with
  | .output .. => resultIn (← ensureTask output source) output
  | _ => throw .missingField

end Flowscript.SessionM
