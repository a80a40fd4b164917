import Flowscript.NodeClass
import Flowscript.Session.Load

/-!
# Real nodes

A node that is at hand as a class can be run at once. Calling it goes through layers that are put
around the class when it is loaded: a layer binds arguments, fills in defaults, tracks the workflow
by calling a virtual node as well, and looks results up in a cache.

A layer is put on a class of its own, or on the class itself. In the second case the classes that
are based on it inherit the layer.
-/

namespace Flowscript

structure RealConfig where
  callable : Bool
  wrapper : Bool
  /-- Positional arguments are given by name. -/
  namesArguments : Bool
  /-- Arguments that are not given have their defaults. -/
  usesDefaults : Bool
  unpacksSingle : Bool
  tracks : Bool
  injectsInputs : Bool

namespace RealConfig

def full : RealConfig := ⟨true, true, true, true, true, true, true⟩

def naked : RealConfig := ⟨false, false, false, false, false, false, false⟩

/-- Tracking needs arguments by name. -/
def settle (c : RealConfig) : RealConfig :=
  { c with namesArguments := c.namesArguments || c.tracks }

end RealConfig

structure Layer where
  info : Value
  defaults : List (String × Value)
  config : RealConfig
  node : VirtualNode

/-- What a call goes through: layers around the plain class. -/
inductive Maker where
  | plain
  | layered (inner : Maker) (layer : Layer)

structure Creator where
  owner : String
  maker : Maker

/-- A loaded node: its class, with a layer on a class of its own if it has one. -/
structure RealNode where
  owner : String
  wrapper : Option (Maker × Creator)

inductive CachePolicy where
  | none
  | shared
  | perNode
  /-- In a new place for each node that has none yet. -/
  | fresh
  /-- In the place for a node, where there is none for any node. -/
  | nothing

/-- Results by the prompts that they came from. -/
abbrev Cache := List (String × Value)

structure RealWorkflow where
  policy : CachePolicy
  shared : Cache
  places : List (String × Option Cache)

structure MethodRun where
  owner : String
  arguments : List Value
  named : List (String × Value)

structure RealState where
  session : Session Unit
  classes : List (String × NodeClass)
  /-- The makers that were put on classes themselves. -/
  makers : List (String × Maker)
  creators : List (String × Creator)
  nodes : List (String × RealNode)
  /-- The last workflow that was entered. -/
  workflow : Option RealWorkflow
  /-- That workflow is under way. -/
  active : Bool
  runs : List MethodRun

/-- Steps of real mode; a failure keeps the changes made before it. -/
abbrev RealM := ExceptT Fault (StateM RealState)

def RealState.new (session : Session Unit) (classes : List (String × NodeClass)) : RealState :=
  ⟨session, classes, [], [], [], none, false, []⟩

namespace RealM

variable {α : Type}

def check (result : Except Fault α) : RealM α := ExceptT.mk (pure result)

def virtual (step : SessionM Unit α) : RealM α :=
  ExceptT.mk fun s =>
    let (result, session) := step.run s.session
    (result, { s with session := session })

def classOf (owner : String) : RealM NodeClass := do
  match Table.find? owner (← get).classes with
  | some c => return c
  | none => throw .missingKey

def makerOf (c : NodeClass) : RealM Maker := do
  let makers := (← get).makers
  return (c.lineage.findSome? (Table.find? · makers)).getD .plain

def creatorOf (c : NodeClass) : RealM (Option Creator) := do
  let creators := (← get).creators
  return c.lineage.findSome? (Table.find? · creators)

def enterWorkflow (policy : CachePolicy) : RealM Unit := do
  modify fun s => { s with workflow := some ⟨policy, [], []⟩, active := true }
  virtual (SessionM.emit (.notice "inference" [.str "enter"]))
  virtual (SessionM.emit (.notice "cleanup_models" []))

def leaveWorkflow : RealM Unit := do
  if (← get).workflow.isNone then throw .unbound
  virtual (SessionM.emit (.notice "inference" [.str "exit"]))
  modify fun s => { s with active := false }

end RealM

namespace RealWorkflow

def newPlace : CachePolicy → Option Cache
  | .perNode | .fresh => some []
  | _ => none

def cacheFor (w : RealWorkflow) (node : String) : Option Cache × RealWorkflow :=
  match w.policy with
  | .none => (none, w)
  | .shared => (some w.shared, w)
  | policy => match Table.find? node w.places with
    | some (some cache) => (some cache, w)
    | _ => (newPlace policy, { w with places := Table.put node (newPlace policy) w.places })

def remember (w : RealWorkflow) (node prompt : String) (result : Value) : RealWorkflow :=
  match w.policy with
  | .shared => { w with shared := Table.put prompt result w.shared }
  | _ => { w with places := Table.update node (Option.map (Table.put prompt result)) w.places }

end RealWorkflow

end Flowscript
