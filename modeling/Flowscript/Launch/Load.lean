import Flowscript.Launch.Start

/-!
# Loading nodes of a launched program

Nodes are loaded from the program once it is started, as virtual or as real nodes.
-/

namespace Flowscript.LaunchM

def localNodes (p : Program) : LaunchM LocalNodes := do
  if (← get).nodesLoaded then
    let embeddings := match p.installation with
      | .directory => p.embeddings
      | .package => []
    return ⟨some (nodesInfoOf p.classes []), some embeddings⟩
  return ⟨none, none⟩

def tryNodesInfo (p : Program) : LaunchM (Option Value) := do
  let here ← localNodes p
  tryCatch (do return some (← session (SessionM.askNodesInfo here))) fun _ => return none

def boundIds (r : Registry) : Value :=
  texts (r.vars.filterMap fun (id, t) => if t matches .nothing then none else some id)

def reach (p : Program) (o : LaunchOptions) : LaunchM Unit := do
  if !p.isDefault then start p o
  else match ← tryNodesInfo p with
    | none => start p o
    | some _ =>
      let url ← session do return (← get).baseUrl
      if (← get).baseUrl != some url then printLine ("ComfyScript: Using ComfyUI from " ++ url)

def loadVirtual (p : Program) (startsToWatch : Bool) : LaunchM Unit := do
  reach p ⟨false, true, false⟩
  let here ← localNodes p
  let info ← session (SessionM.askNodesInfo here)
  let r ← session (SessionM.loadNodes here info)
  if startsToWatch then session (SessionM.startWatch (.bool true) (.bool true) (.bool true))
  emit "vars" [boundIds r]

def silenceProgress (p : Program) : LaunchM Unit := do
  if p.installation == .package then throw .moduleNotFound
  if p.hasProgressHook then emit "progress_hook" [.null]
  else modify fun s => { s with
    context := Table.put "receive_all_progress_notifications" (.bool false) s.context }

def loadReal (p : Program) (config : RealConfig) (noServer : Bool) : LaunchM Unit := do
  start p ⟨noServer, true, false⟩
  silenceProgress p
  let here ← localNodes p
  let info ← session (SessionM.askNodesInfo here)
  printLine ("Nodes: " ++ Value.intText (← check info.length))
  let r ← real (RealM.loadNodes config.settle here info)
  emit "vars" [boundIds r]
  let nodes := (← get).real.nodes
  emit "classes" [.list (nodes.map fun (name, n) => .list [.str name, .bool n.wrapper.isNone])]
  emit "context" [.dict (← get).context]

def moduleNames (p : Program) : LaunchM (Option (List String)) := do
  let own := ["NODE_CLASS_MAPPINGS", "NODE_DISPLAY_NAME_MAPPINGS"]
  if !(← get).nodesLoaded then return none
  match p.installation with
  | .directory => return some own
  | .package => return some (["BASE_MARK", "EXTENSION_WEB_DIRS", "MAX_RESOLUTION"] ++ own)

def nodeNames (p : Program) : LaunchM (Option (List String)) := do
  let s ← get
  if !s.nodesLoaded then return none
  return some ((p.classes.map Prod.fst ++ s.addedNodes).mergeSort fun a b => decide (a ≤ b))

end Flowscript.LaunchM
