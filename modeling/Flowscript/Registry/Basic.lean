import Flowscript.Enumeration
import Flowscript.Table

/-!
# The registry of nodes and types

Nodes, data types and shared enumerations live under identifiers of the script language. A raw name
gets the class identifier that it suggests, with underscores behind it if that is taken; the same
raw name always gets the same identifier. Some identifiers are kept for shared enumerations from
the start.
-/

namespace Flowscript

/-- What an identifier or the type of an input or output stands for. -/
inductive TypeRef where
  | nothing
  | basic (name : String)
  | anyOutput
  /-- A claimed identifier with nothing behind it yet. -/
  | claimed (id raw : String)
  /-- The type of data that nodes pass on. -/
  | data (id raw : String)
  | enumeration (e : Enumeration)
  /-- A node, by its raw name, and by the name of its class where it is a class. -/
  | node (raw : String) (className : Option String)
  | module (name : String)

namespace TypeRef

/-- The raw name that something is registered for. -/
def raw? : TypeRef → Option String
  | claimed _ raw | data _ raw | node raw _ => some raw
  | _ => none

def name? : TypeRef → Option String
  | basic name => some name
  | anyOutput => some "NodeOutput"
  | claimed id _ | data id _ => some id
  | enumeration e => some e.name
  | node _ className => className
  | nothing | module _ => none

def isEnumeration : TypeRef → Bool
  | enumeration _ => true
  | _ => false

end TypeRef

structure NodeEntry where
  info : Value
  defaults : List (String × Value)
  outputTypes : List TypeRef
  attached : List (String × Enumeration)

structure Registry where
  vars : List (String × TypeRef)
  nodes : List (String × NodeEntry)
  dataStubs : List (String × String)
  sharedValues : List (String × Value)
  sharedStubs : List (String × String)
  nodeStubs : List String
  /-- Hidden inputs become parameters too. -/
  hiddenInputs : Bool
  /-- Enumerations have at most so many values. -/
  maxEnumValues : Int
  /-- The imported modules, if dotted names are looked up as types. -/
  imports : Option (List String)
  log : String

namespace Registry

/-- The inputs whose enumerations are shared: node, input and identifier. -/
def sharedInputs : List (String × String × String) := [
  ("CheckpointLoaderSimple", "ckpt_name", "Checkpoints"),
  ("CLIPLoader", "clip_name", "CLIPs"),
  ("CLIPVisionLoader", "clip_name", "CLIPVisions"),
  ("ControlNetLoader", "control_net_name", "ControlNets"),
  ("DiffusersLoader", "model_path", "Diffusers"),
  ("GLIGENLoader", "gligen_name", "GLIGENs"),
  ("HypernetworkLoader", "hypernetwork_name", "Hypernetworks"),
  ("LoraLoader", "lora_name", "Loras"),
  ("PhotoMakerLoader", "photomaker_model_name", "PhotoMakers"),
  ("StyleModelLoader", "style_model_name", "StyleModels"),
  ("UNETLoader", "unet_name", "UNETs"),
  ("UpscaleModelLoader", "model_name", "UpscaleModels"),
  ("VAELoader", "vae_name", "VAEs"),
  ("KSampler", "sampler_name", "Samplers"),
  ("KSampler", "scheduler", "Schedulers")]

def sharedId? (node input : String) : Option String :=
  (sharedInputs.find? fun (n, i, _) => n == node && i == input).map fun (_, _, id) => id

def empty (hiddenInputs : Bool) (maxEnumValues : Int) (lookUpNames : Bool) : Registry where
  vars := sharedInputs.map fun (_, _, id) => (id, .nothing)
  nodes := []
  dataStubs := []
  sharedValues := []
  sharedStubs := []
  nodeStubs := []
  hiddenInputs := hiddenInputs
  maxEnumValues := maxEnumValues
  imports := if lookUpNames then some [] else none
  log := ""

/-- What a raw name is registered as, or the first identifier that is free for it. An identifier
with one more underscore is tried as long as the last is taken by another name; one of the first
`vars.length + 1` is free. -/
def searchId (vars : List (String × TypeRef)) (raw : String) :
    (fuel : Nat) → String → TypeRef ⊕ String
  | 0, id => .inr id
  | fuel + 1, id => match Table.find? id vars with
    | none => .inr id
    | some t => if t.raw? == some raw then .inl t else searchId vars raw fuel (id ++ "_")

def resolve (r : Registry) (raw : String) : TypeRef ⊕ String :=
  searchId r.vars raw (r.vars.length + 1) (Identifier.classId raw)

def setVar (r : Registry) (id : String) (t : TypeRef) : Registry :=
  { r with vars := Table.put id t r.vars }

def note (r : Registry) (line : String) : Registry := { r with log := r.log ++ line ++ "\n" }

end Registry

/-- Steps that change the registry and may fail; a failure keeps the changes made before it. -/
abbrev Registering := ExceptT Fault (StateM Registry)

namespace Registering

def check {α : Type} (result : Except Fault α) : Registering α := ExceptT.mk (pure result)

def claim (raw : String) : Registering (TypeRef ⊕ String) := do
  match (← get).resolve raw with
  | .inl t => return .inl t
  | .inr id =>
    modify fun r => r.setVar id (.claimed id raw)
    return .inr id

def bind (raw id : String) (t : TypeRef) : Registering Unit := do
  match Table.find? id (← get).vars with
  | none => pure ()
  | some old => match old.raw? with
    | none => throw .missingField
    | some r => if r != raw then throw .broken
  modify fun r => r.setVar id t

def note (line : String) : Registering Unit := modify fun r => r.note line

end Registering

end Flowscript
