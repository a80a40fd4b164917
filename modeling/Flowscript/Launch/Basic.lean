import Flowscript.Extension
import Flowscript.Real.Load

/-!
# Launching the server

The server is a program that is installed in a directory or as a package. It is launched inside the
same process: its main module is loaded with arguments of its own, and its server is started on a
port. What the program consists of is described by a `Program`.
-/

namespace Flowscript

inductive Installation where
  | directory
  | package
  deriving DecidableEq

structure Program where
  installation : Installation
  /-- The directory is not given but looked for at the default place. -/
  isDefault : Bool
  found : Bool
  /-- A package of the same name, without anything in it, is loaded already. -/
  hidden : Bool
  numericLoaded : Bool
  exitCode : Int
  /-- The server can be found by others. -/
  publishes : Bool
  busy : Bool
  freePort : Value
  verbose : Value
  tells : Bool
  tasks : Option Nat
  hasExtraFile : Bool
  extraConfigs : Value
  hasProgressHook : Bool
  entryPoints : List EntryPoint
  modules : List String
  classes : List (String × NodeClass)
  embeddings : List String

def Program.isPresent (p : Program) : Bool := !p.isDefault || p.found

/-- What the name of the server in the main module stands for. -/
inductive ServerSlot where
  | library
  | running
  deriving DecidableEq

structure Launch where
  started : Bool
  baseUrl : Option String
  argv : List String
  /-- The arguments for the program that were given last. -/
  arguments : Option (List String)
  port : Value
  mainLoaded : Bool
  server : ServerSlot
  /-- There is a server that others can find. -/
  hasServer : Bool
  tasksLeft : Nat
  onPath : Bool
  aliased : Bool
  nodesLoaded : Bool
  /-- Nodes that came with entry points. -/
  addedNodes : List String
  exited : Bool
  /-- What was set at the server's execution context. -/
  context : List (String × Value)
  real : RealState

/-- Steps of launching; a failure keeps the changes made before it. -/
abbrev LaunchM := ExceptT Fault (StateM Launch)

structure LaunchOptions where
  noServer : Bool
  joinsAtExit : Bool
  /-- The main module is loaded but not run. -/
  autonomous : Bool

def directoryName : String := "<comfyui>"

def Launch.new (p : Program) (argv : List String) (port : Value) (session : Session Unit) :
    Launch where
  started := false
  baseUrl := none
  argv := argv
  arguments := none
  port := port
  mainLoaded := false
  server := .library
  hasServer := false
  tasksLeft := 0
  onPath := false
  aliased := false
  nodesLoaded := p.installation == .directory && !p.isDefault
  addedNodes := []
  exited := false
  context := []
  real := .new session p.classes

namespace LaunchM

variable {α : Type}

def check (result : Except Fault α) : LaunchM α := ExceptT.mk (pure result)

def real (step : RealM α) : LaunchM α :=
  ExceptT.mk fun s =>
    let (result, r) := step.run s.real
    (result, { s with real := r })

def session (step : SessionM Unit α) : LaunchM α := real (RealM.virtual step)

def printLine (line : String) : LaunchM Unit := session (SessionM.printLine line)

def emit (subject : String) (details : List Value) : LaunchM Unit :=
  session (SessionM.emit (.notice subject details))

def texts (items : List String) : Value := .list (items.map .str)

def newServer (p : Program) (hasLoop : Bool) : LaunchM Unit := do
  emit "PromptServer" [.bool hasLoop]
  modify fun s => { s with
    server := .running
    hasServer := s.hasServer || p.publishes
    tasksLeft := p.tasks.getD 0 }

def giveAliases : LaunchM Unit :=
  modify fun s => { s with
    aliased := true
    nodesLoaded := true
    server := if s.hasServer then .running else .library }

def canFindServer (p : Program) : LaunchM Bool := do
  match p.installation with
  | .directory => return (← get).onPath
  | .package => return (← get).aliased

def join (p : Program) : LaunchM Unit := do
  if !(← canFindServer p) then throw .moduleNotFound
  let s ← get
  if s.hasServer && (p.tasks.isSome || p.installation == .package) then
    for _ in List.range s.tasksLeft do
      emit "sleep" [.float (Binary64.ofDecimal false 1 (-1))]
    modify fun s => { s with tasksLeft := 0 }

end LaunchM

end Flowscript
