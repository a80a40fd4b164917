import Flowscript.Real.Basic

/-!
# Calling real nodes

A call goes through the layers around a class, the outermost first. A layer makes an object with
what is inside it and runs the object's method. If there is another layer inside, that one gives its
result instead of an object, and a result has no method to run.
-/

namespace Flowscript

inductive Made where
  | object (c : NodeClass)
  | value (v : Value)

namespace RealM

/-- The arguments that a method gets: positional ones, named ones, and the named ones without
defaults. -/
def bindArguments (l : Layer) (arguments : List Value) (named : List (String × Value)) :
    RealM (List Value × List (String × Value) × List (String × Value)) := do
  let (arguments, named) ← if l.config.namesArguments then do
      let bound ← virtual (SessionM.bindPositional l.info arguments)
      pure ([], Value.merge bound named)
    else pure (arguments, named)
  if !l.config.usesDefaults then return (arguments, named, named)
  if l.config.namesArguments then return (arguments, Value.merge l.defaults named, named)
  let bound ← virtual (SessionM.bindPositional l.info arguments)
  let missing := l.defaults.filter fun (k, _) => !Value.hasKey k bound
  return (arguments, Value.merge missing named, named)

def unwrap : Value → Value
  | .wrapped inner _ => inner
  | v => v

def standIn : Value → Value
  | .wrapped _ output => output
  | v => v

def trackingText (e : Fault) : String :=
  match e.message with
  | some m => if m.startsWith "Argument \"" then m else "<error>"
  | none => "<error>"

/-- Calls the virtual node with what stands for the arguments; a failure is noted. -/
def track (l : Layer) (named : List (String × Value)) : RealM (Option (List Value)) := do
  let stood := named.map fun (k, v) => (k, standIn v)
  let call : RealM (Option (List Value)) := do
    match ← virtual (SessionM.callNode l.node [] stood) with
    | .list outputs => return some outputs
    | output => return some [output]
  tryCatch call fun e => do
    let name ← check (l.info.entry "name")
    virtual (SessionM.printLine ("ComfyScript: track_workflow: Failed to call " ++ name.text ++ ": " ++
      trackingText e))
    return none

def firstOutput (outputs : Option (List Value)) : Except Fault Value :=
  match outputs with
  | none => .error .wrongKind
  | some [] => .error .outOfRange
  | some (output :: _) => .ok output

def ownId (p : Prompt) : Value → Value
  | .output _ _ _ call _ _ _ => match p.ids.id? call with
    | some id => .str id
    | none => .null
  | _ => .null

def injectInput (output : Value) (given named : List (String × Value)) (k : String) (kind : Value) :
    Except Fault (List (String × Value)) := do
  if Value.hasKey k given then .ok named
  else if kind == .str "PROMPT" then do
    .ok (Value.put k (← Prompt.ofOutput output).toValue named)
  else if kind == .str "UNIQUE_ID" then do
    .ok (Value.put k (ownId (← Prompt.ofOutput output) output) named)
  else .ok named

def injectInputs (l : Layer) (outputs : List Value) (given named : List (String × Value)) :
    Except Fault (List (String × Value)) := do
  match ← NodeInfo.group? l.info "hidden" with
  | none => .ok named
  | some hidden =>
    let inputs ← match hidden.bare with
      | .dict entries => Except.ok entries
      | _ => .error .missingField
    inputs.foldlM (fun named (k, kind) => do
      injectInput (← firstOutput (some outputs)) given named k kind) named

def cacheWarning : String := "Workflow cache requires " ++ "\x60track_workflow\x60" ++ " to work"

def cacheOf (l : Layer) : RealM (Option (String × Cache)) := do
  let name ← check (l.info.entry "name")
  match (← get).active, (← get).workflow with
  | true, some w =>
    let (cache, w) := w.cacheFor name.text
    modify fun s => { s with workflow := some w }
    match cache with
    | none => return none
    | some cache =>
      if l.config.tracks then return some (name.text, cache)
      virtual (SessionM.warn cacheWarning)
      return none
  | _, _ => return none

def streamClass : String := "generator"

def runMethod (made : Made) (arguments : List Value) (named : List (String × Value)) :
    RealM Value := do
  match made with
  | .value _ => throw .missingField
  | .object c => match c.attribute? "FUNCTION" with
    | none => throw .missingField
    | some function => match function.text? with
      | none => throw .wrongKind
      | some function => match Table.find? function c.methods with
        | none => throw .missingField
        | some m =>
          modify fun s => { s with runs := s.runs ++ [⟨m.owner, arguments, named⟩] }
          check (m.give arguments named)

def resultCount (results : Value) : Except Fault (Option Nat) :=
  match results with
  | .dict _ => .ok none
  | .object c => if c == streamClass then .error .wrongKind else .ok none
  | .wrapped (.dict _) _ => .ok none
  | .wrapped inner _ => inner.length.map some
  | v => if v.iterable then v.length.map some else .ok none

def wrapResults (l : Layer) (results : Value) (outputs : List Value) : RealM Value := do
  match ← check (resultCount results) with
  | none => return results
  | some n =>
    if n != outputs.length then
      let name ← check (l.info.entry "name")
      virtual (SessionM.printLine ("ComfyScript: track_workflow: " ++ name.text ++
        " has different number of real and virtual outputs: " ++ Value.intText n ++ " != " ++
        Value.intText outputs.length))
    let items ← check (unwrap results).iterate
    return .list ((items.zip outputs).map fun (v, output) => .wrapped v output)

def unpackSingle (results : Value) : RealM Value := do
  match ← check (resultCount results) with
  | some 1 => check ((unwrap results).item (.int 0))
  | _ => return results

def callLayer (l : Layer) (made : Made) (arguments : List Value) (named : List (String × Value)) :
    RealM Value := do
  let (arguments, named, given) ← bindArguments l arguments named
  let outputs ← if l.config.tracks then track l named else pure none
  let named := if l.config.tracks then named.map fun (k, v) => (k, unwrap v) else named
  let named ← match outputs, l.config.injectsInputs with
    | some outputs, true => check (injectInputs l outputs given named)
    | _, _ => pure named
  let place ← match ← cacheOf l with
    | none => pure none
    | some (name, cache) => do
      let prompt ← check do (← Prompt.ofOutput (← firstOutput outputs)).json
      pure (some (name, prompt, (Value.lookup prompt cache).getD .null))
  match place with
  | some (_, _, .null) | none =>
    let results ← runMethod made arguments named
    let results ← match outputs with
      | some outputs => wrapResults l results outputs
      | none => pure results
    let results ← if l.config.unpacksSingle then unpackSingle results else pure results
    match place with
    | some (name, prompt, _) =>
      modify fun s => { s with workflow := s.workflow.map (·.remember name prompt results) }
    | none => pure ()
    return results
  | some (_, _, found) => return found

/-- The result of a layer taken as an object that is set up once more: a list loses its items, and
a wrapped value cannot be set up. -/
def setUp : Value → Except Fault Value
  | .wrapped _ _ => .error .wrongKind
  | .list _ => .ok (.list [])
  | v => .ok v

end RealM

namespace Maker

def make (c : NodeClass) : Maker → RealM Made
  | plain => return .object c
  | layered inner l => do
    return .value (← RealM.check (RealM.setUp (← RealM.callLayer l (← make c inner) [] [])))

def run (c : NodeClass) (arguments : List Value) (named : List (String × Value)) :
    Maker → RealM Value
  | plain =>
    if arguments.isEmpty && named.isEmpty then return .object c.name else throw .wrongKind
  | layered inner l => do RealM.callLayer l (← make c inner) arguments named

end Maker

namespace RealM

def node (name : String) : RealM RealNode := do
  match Table.find? name (← get).nodes with
  | some n => return n
  | none => throw .wrongKind

def call (n : RealNode) (arguments : List Value) (named : List (String × Value)) :
    RealM Value := do
  let c ← classOf n.owner
  let maker ← match n.wrapper with
    | some (maker, _) => pure maker
    | none => makerOf c
  maker.run c arguments named

def create (n : RealNode) : RealM Made := do
  let creator ← match n.wrapper with
    | some (_, creator) => pure (some creator)
    | none => creatorOf (← classOf n.owner)
  match creator with
  | none => throw .missingField
  | some creator => creator.maker.make (← classOf creator.owner)

def describe (n : RealNode) (made : Made) : RealM (String × Bool) := do
  match made with
  | .value v => return (v.kindName, false)
  | .object c => return (c.name, c.lineage == (← classOf n.owner).lineage)

end RealM

end Flowscript
