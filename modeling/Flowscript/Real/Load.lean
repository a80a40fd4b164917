import Flowscript.Real.Call

/-!
# Loading real nodes

When a class is loaded, a layer is put on it or on a class of its own. A class that has a layer for
the same node keeps it.
-/

namespace Flowscript.RealM

def layerFor (config : RealConfig) (entry : NodeEntry) : Layer :=
  ⟨entry.info, entry.defaults, config, ⟨{ entry with attached := [] }, true⟩⟩

def layerName (l : Layer) : Value := (l.info.entry "name").toOption.getD .null

/-- Puts a layer on the class itself, in place of one that the class got from elsewhere. -/
def layClass (owner : String) (c : NodeClass) (l : Layer) : RealM Unit := do
  let put (inner : Maker) : RealM Unit := do
    modify fun s => { s with makers := Table.put owner (.layered inner l) s.makers }
    if (← creatorOf c).isNone then
      modify fun s => { s with creators := Table.put owner ⟨owner, inner⟩ s.creators }
  match ← makerOf c with
  | .plain => put .plain
  | .layered inner old => if layerName old == layerName l then return else put inner

def prepare (config : RealConfig) (owner : String) (entry : NodeEntry) : RealM RealNode := do
  let c ← classOf owner
  if !config.callable then return ⟨owner, none⟩
  let l := layerFor config entry
  if config.wrapper then
    let inner ← makerOf c
    return ⟨owner, some (.layered inner l, ⟨owner, inner⟩)⟩
  layClass owner c l
  return ⟨owner, none⟩

def className (entry : NodeEntry) : Except Fault (Option String) := do
  match ← entry.info.entry "_cls" with
  | .classRef _ name => .ok (some name)
  | _ => .error .missingField

def loadNodes (config : RealConfig) (here : LocalNodes) (info : Value) : RealM Registry := do
  modify fun s => { s with session := { s.session with nodes := [] }, nodes := [] }
  let r ← virtual (SessionM.register (.empty true 2000 false) className here info)
  for (name, entry) in r.nodes do
    let n ← prepare config name entry
    modify fun s => { s with nodes := Table.put name n s.nodes }
  return r

end Flowscript.RealM
