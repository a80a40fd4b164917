import Flowscript.Prompt
import Flowscript.Registry.Basic
import Flowscript.Server

/-!
# Sessions

A session holds the loaded nodes, the tasks that were queued and the workflows under way. What
happens on the way is kept as data: requests, events, lines of the log and warnings. Outputs, calls,
tasks and workflows have numbers as identities.

The code that a user wants run when the queue is empty is of some type `κ`; who runs it is left
open.
-/

namespace Flowscript

structure Flow where
  outputs : List Value
  queueOnExit : Bool
  cancelAll : Bool
  cancelRemaining : Bool
  waitOnExit : Bool
  task : Value

structure TaskState where
  number : Value
  promptId : Value
  ids : IdTable
  /-- The outputs that arrived one by one. -/
  newOutputs : List (Value × Value)
  /-- All outputs, once the task is finished. -/
  result : Option (List (Value × Value))
  previewObservers : List String
  doneObservers : List String

/-- Who hears of the number of tasks left: the caller of the code for an empty queue, or an
observer with a name. -/
inductive Listener where
  | emptyCaller
  | observer (name : String)
  deriving DecidableEq

structure EmptyCode (κ : Type) where
  arity : Nat
  source : Value
  body : κ

structure TaskQueue (κ : Type) where
  /-- The tasks that are not finished, by prompt id. -/
  tasks : List (Value × Nat)
  watched : Bool
  emptyCode : Option (EmptyCode κ)
  listeners : List Listener
  showOutput : Value
  showPreview : Value
  showTask : Value
  remaining : Value

inductive Widget where
  | value (v : Value)
  | html (text : String)
  | box (children : List Widget)
  | label (text : Value)
  | picture (image : Value) (options : List (String × Value)) (styleClass : String)
  | grid (rows cols : Value) (options : List (String × Value)) (cells : List (Nat × Nat × Widget))

inductive Event where
  | notice (subject : String) (details : List Value)
  | display (objects : List Widget) (options : List (String × Value))

/-- What is left to do once the current step is over. -/
inductive Job where
  | finish (task : Nat) (outputs : List (Value × Value))
  | tell (observer : String) (outputs : List (Value × Value))

structure Trace where
  requests : List Request
  events : List Event
  log : String
  warnings : List String

def Trace.empty : Trace := ⟨[], [], "", []⟩

structure Session (κ : Type) where
  vars : List (String × TypeRef)
  nodes : List (String × NodeEntry)
  server : Server
  baseUrl : String
  /-- The source of a script is sent along. -/
  saveSource : Value
  hasNotebook : Bool
  fresh : Nat
  outputTasks : List (Nat × Value)
  flows : List (Nat × Flow)
  tasks : List (Nat × TaskState)
  /-- The workflow that collects the outputs of output nodes. -/
  hook : Option Nat
  queue : TaskQueue κ
  bar : Option Value
  jobs : List Job
  names : List (String × Value)
  trace : Trace

/-- Steps of a session; a failure keeps the changes made before it. -/
abbrev SessionM (κ : Type) := ExceptT Fault (StateM (Session κ))

abbrev Runner (κ : Type) := κ → Option Nat → SessionM κ Value

def TaskQueue.empty {κ : Type} : TaskQueue κ where
  tasks := []
  watched := false
  emptyCode := none
  listeners := [.emptyCaller]
  showOutput := .bool false
  showPreview := .bool false
  showTask := .bool false
  remaining := .int 0

def Session.new {κ : Type} (server : Server) (baseUrl : String) (hasNotebook : Bool) :
    Session κ where
  vars := []
  nodes := []
  server := server
  baseUrl := baseUrl
  saveSource := .bool true
  hasNotebook := hasNotebook
  fresh := 1
  outputTasks := []
  flows := []
  tasks := []
  hook := none
  queue := .empty
  bar := none
  jobs := []
  names := []
  trace := .empty

namespace SessionM

variable {κ α : Type}

def check (result : Except Fault α) : SessionM κ α := ExceptT.mk (pure result)

def mark (f : Trace → Trace) : SessionM κ Unit := modify fun s => { s with trace := f s.trace }

def print (text : String) : SessionM κ Unit := mark fun t => { t with log := t.log ++ text }

def printLine (line : String) : SessionM κ Unit := print (line ++ "\n")

def warn (text : String) : SessionM κ Unit :=
  mark fun t => { t with warnings := t.warnings ++ [text] }

def emit (e : Event) : SessionM κ Unit := mark fun t => { t with events := t.events ++ [e] }

def freshId : SessionM κ Nat := do
  let n := (← get).fresh
  modify fun s => { s with fresh := n + 1 }
  return n

def named (name : String) : SessionM κ Value := do
  match Value.lookup name (← get).names with
  | some v => return v
  | none => throw .unbound

def keep (name : String) (v : Value) : SessionM κ Unit :=
  modify fun s => { s with names := Value.put name v s.names }

def request (method path : String) (parameters body : Option Value) : SessionM κ Response := do
  let s ← get
  mark fun t => { t with
    requests := t.requests ++ [⟨method, s.baseUrl ++ path, parameters, body⟩] }
  let (reply, server) := s.server.ask (method ++ " " ++ route (s.baseUrl ++ path))
  modify fun s => { s with server := server }
  match reply with
  | .noConnection => throw .unreachable
  | .answer r => return r

def setQueue (f : TaskQueue κ → TaskQueue κ) : SessionM κ Unit :=
  modify fun s => { s with queue := f s.queue }

def flow (id : Nat) : SessionM κ Flow := do
  match Table.find? id (← get).flows with
  | some f => return f
  | none => throw .unbound

def setFlow (id : Nat) (f : Flow → Flow) : SessionM κ Unit :=
  modify fun s => { s with flows := Table.update id f s.flows }

def task (id : Nat) : SessionM κ TaskState := do
  match Table.find? id (← get).tasks with
  | some t => return t
  | none => throw .unbound

def setTask (id : Nat) (f : TaskState → TaskState) : SessionM κ Unit :=
  modify fun s => { s with tasks := Table.update id f s.tasks }

end SessionM

end Flowscript
