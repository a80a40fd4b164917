import Flowscript.Launch.Basic

/-!
# Starting the program

The main module is run with an argument that makes it exit once it is set up. Instead of exiting it
goes on to start its server, on another port if its own is in use. If only the modules are wanted,
the main module is loaded but not run, and what it would set up is set up here.
-/

namespace Flowscript.LaunchM

def address : Value := .str "127.0.0.1"

def quickTest : String := "--quick-test-for-ci"

def keepNumeric : String := "--disable-cuda-malloc"

/-- Where the program is, as a text; a hidden package may stand for it. -/
def locate (p : Program) : LaunchM String := do
  if p.isPresent then return directoryName
  if p.hidden then return "None"
  throw (.programNotFound directoryName)

def numericNotice : String :=
  "ComfyScript: PyTorch is imported before start ComfyUI, PyTorch config will be skipped. If it " ++
    "is possible, you should only \x60import torch\x60 after start_comfyui()/load() is called."

def prepareArguments (p : Program) : LaunchM (List String) := do
  let given := (← get).arguments.getD []
  if !p.numericLoaded || given.contains keepNumeric then return given
  printLine numericNotice
  let all := given ++ [keepNumeric]
  modify fun s => { s with arguments := s.arguments.map fun _ => all }
  return all

def serve (p : Program) : LaunchM Unit := do
  let port := (← get).port
  emit "start" [address, port, p.verbose]
  if p.busy && port != .int 0 then
    emit "start" [address, .int 0, .bool false]
    modify fun s => { s with port := p.freePort }
    if p.verbose.truthy then
      printLine "Starting server\n"
      printLine ("To see the GUI go to: http://127.0.0.1:" ++ p.freePort.text)
    if p.tells then emit "call_on_start" [address, p.freePort]
  else if p.tells then emit "call_on_start" [address, port]

/-- The main module exits; with a code it does so for good. A main module in a directory that has
done so before cannot do it again. -/
def exitMain (p : Program) : LaunchM Unit := do
  if p.exitCode != 0 then
    if p.installation == .directory then
      if (← get).exited then throw .endless
      modify fun s => { s with exited := true }
    throw (.exit p.exitCode)

def runMain (p : Program) (o : LaunchOptions) : LaunchM Unit := do
  newServer p true
  exitMain p
  if p.installation == .package then giveAliases
  if !o.noServer then
    if (← get).server == .library then throw .missingField
    serve p

/-- Loads the main module of a directory, under the name it is to have. A module is loaded once. -/
def loadMain (p : Program) (name : String) (body : LaunchM Unit) : LaunchM Unit := do
  if !p.isPresent then throw .moduleNotFound
  modify fun s => { s with nodesLoaded := true, server := .library }
  emit "main" [texts (← get).argv]
  if p.hidden then throw .moduleNotFound
  emit "enable_args_parsing" []
  emit "name" [.str name]
  body
  modify fun s => { s with mainLoaded := true }

def announce (p : Program) (place : String) : LaunchM Unit := do
  match p.installation with
  | .directory =>
    printLine ("ComfyScript: Importing ComfyUI from " ++ place)
    if p.isPresent then modify fun s => { s with onPath := true }
  | .package => printLine "ComfyScript: Importing ComfyUI from comfyui package"

def moduleFields : List String := ["__name__", "__doc__", "__package__", "__loader__", "__spec__"]

def addEntryPoint (p : Program) (e : EntryPoint) : LaunchM Unit := do
  match e.target? with
  | none => printLine e.failureLine
  | some (module, members) =>
    if !ModulePath.importable p.modules.contains module ||
        !members.head?.all moduleFields.contains then
      printLine e.failureLine
    else if members.isEmpty then
      let node := module ++ " node"
      emit "enumerate" [.str module, .bool true]
      emit "nodes added" [texts [node]]
      modify fun s => { s with addedNodes := s.addedNodes ++ [node] }

def addEntryPoints (p : Program) : LaunchM Unit := p.entryPoints.forM (addEntryPoint p)

def urlOf (port : Value) : String := "http://127.0.0.1:" ++ port.text ++ "/"

def startFull (p : Program) (o : LaunchOptions) (place : String) : LaunchM Unit := do
  modify fun s => { s with argv := s.argv ++ [quickTest] }
  announce p place
  match p.installation with
  | .directory =>
    if p.hidden then throw .moduleNotFound
    if (← get).mainLoaded then throw .missingField
    loadMain p "__main__" (runMain p o)
  | .package =>
    emit "main" [texts (← get).argv]
    runMain p o
    addEntryPoints p
  if !o.noServer then
    emit "thread" [.str "publish_loop", .bool true]
    let url := urlOf (← get).port
    modify fun s => { s with baseUrl := some url }
    session (modify fun s => { s with baseUrl := url })

def addExtraConfigs (p : Program) : LaunchM Unit := do
  if p.extraConfigs.truthy then
    for group in ← check p.extraConfigs.iterate do
      for config in ← check group.iterate do
        emit "extra_config" [config]

def startModules (p : Program) (place : String) : LaunchM Unit := do
  announce p place
  match p.installation with
  | .directory => if !(← get).mainLoaded then loadMain p "main" (pure ())
  | .package => giveAliases
  if (← get).server == .running then throw .missingField
  newServer p false
  emit "add_routes" []
  if p.hasExtraFile && p.installation == .directory then
    emit "extra_config" [.str (directoryName ++ "/extra_model_paths.yaml")]
  addExtraConfigs p
  match p.installation with
  | .directory => emit "init_custom_nodes" []
  | .package => addEntryPoints p
  emit "cuda_malloc_warning" []

def start (p : Program) (o : LaunchOptions) : LaunchM Unit := do
  let s ← get
  if s.started && (s.baseUrl.isSome || o.noServer) then return
  modify fun s => { s with started := false, baseUrl := none }
  let place ← locate p
  let arguments ← prepareArguments p
  let before := (← get).argv
  modify fun s => { s with argv := arguments }
  if o.autonomous then startModules p place else startFull p o place
  modify fun s => { s with argv := before, started := true }
  if !o.noServer && o.joinsAtExit then emit "atexit" [.str "join_comfyui"]

end Flowscript.LaunchM
