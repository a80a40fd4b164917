import Flowscript.Client
import Flowscript.Registry.AddNode
import Flowscript.Session.Watch

/-!
# Loading nodes

The descriptions of nodes come from the server or from classes at hand. Each node is registered; one
that cannot be is left out with a line in the log.
-/

namespace Flowscript

structure LocalNodes where
  nodesInfo : Option Value
  embeddings : Option (List String)

inductive Target where
  | known
  | client
  | address (url : String)

namespace Registering

/-- Registers nodes in turn; one that fails is left out. -/
def addAll (make : NodeEntry → Except Fault (Option String)) : List Value → Registering Unit
  | [] => return
  | info :: rest => do
    tryCatch (addNode .none make info) fun _ => do
      note ("ComfyScript: Failed to load node " ++ (← check (info.entry "name")).text)
    addAll make rest

end Registering

namespace SessionM

variable {κ : Type}

def askNodesInfo (here : LocalNodes) : SessionM κ Value := do
  match here.nodesInfo with
  | some info => return info
  | none => check (Client.nodesInfo (.answer (← request "GET" "object_info" none none)))

def askEmbeddings (here : LocalNodes) : SessionM κ (Except Fault Value) := do
  match here.embeddings with
  | some files => return .ok (.list (files.map fun f => .str (fileStem f)))
  | none =>
    let ask : SessionM κ (Except Fault Value) := do
      return Client.embeddings (.answer (← request "GET" "embeddings" none none))
    tryCatch ask fun e => return .error e

def valuesOf (v : Value) : Except Fault (List Value) :=
  match v.bare with
  | .dict entries => .ok (entries.map Prod.snd)
  | _ => .error .missingField

def register (r : Registry) (make : NodeEntry → Except Fault (Option String))
    (here : LocalNodes) (info : Value) : SessionM κ Registry := do
  let embeddings ← askEmbeddings here
  let work : Registering Unit := do
    Registering.addEmbeddings embeddings
    Registering.addAll make (← Registering.check (valuesOf info))
  let (result, r) := work.run r
  print r.log
  check result
  modify fun s => { s with nodes := r.nodes, vars := r.vars.foldl (fun vars (id, t) => Table.put id t vars) s.vars }
  return r

def loadNodes (here : LocalNodes) (info : Value) : SessionM κ Registry := do
  printLine ("Nodes: " ++ Value.intText (← check info.length))
  register (.empty false 2000 false) (fun _ => .ok none) here info

def load (here : LocalNodes) (target : Target) (saveSource : Value) (startsToWatch : Bool) :
    SessionM κ Registry := do
  modify fun s => { s with saveSource := saveSource }
  if let .address url := target then
    modify fun s => { s with baseUrl := Client.baseUrl (.str url) }
  let info ← askNodesInfo here
  if target matches .known then
    printLine ("ComfyScript: Using ComfyUI from " ++ (← get).baseUrl)
  let r ← loadNodes here info
  if startsToWatch then startWatch (.bool true) (.bool true) (.bool true)
  return r

end SessionM

end Flowscript
