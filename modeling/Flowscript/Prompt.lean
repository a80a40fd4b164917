import Flowscript.Choice
import Flowscript.Json.Writer
import Flowscript.Table

/-!
# Prompts

The prompt of an output lists the node calls that it depends on, each under an id made of the
node's type and a number. A call comes after the calls that its inputs come from, and a call that
several outputs share comes once.
-/

namespace Flowscript

structure IdTable where
  /-- How many calls of each type have an id. -/
  counts : List (Value × Nat)
  ids : List (Nat × String)
  calls : List (String × Nat × Value)

namespace IdTable

def empty : IdTable := ⟨[], [], []⟩

def id? (t : IdTable) (call : Nat) : Option String := Table.find? call t.ids

def call? (t : IdTable) (id : String) : Option Nat := (Table.find? id t.calls).map Prod.fst

/-- A new id for a call: its type and the number of calls of that type before it. -/
def assign (t : IdTable) (call : Nat) (type : Value) : Except Fault (String × IdTable) :=
  if !type.hashable then .error .wrongKind
  else
    let n := (Table.find? type t.counts).getD 0
    let id := type.text ++ "." ++ Value.intText n
    .ok (id, ⟨Table.put type (n + 1) t.counts, Table.put call id t.ids,
      Table.put id (call, type) t.calls⟩)

end IdTable

structure Prompt where
  entries : List (String × Value)
  ids : IdTable

namespace Prompt

def empty : Prompt := ⟨[], .empty⟩

def typeInGroup (info : Value) (name group : String) : Except Fault (Option Value) := do
  match ← (← info.entry "input").get group with
  | none | some .null => return none
  | some g =>
    if ← g.containsText name then return some (← (← g.entry name).item (.int 0))
    else return none

def declaredType (info : Value) (name : String) : Except Fault (Option Value) := do
  match ← typeInGroup info name "required" with
  | some t => return some t
  | none => typeInGroup info name "optional"

/-- What is sent for a truth value: the word for it, if the input is a choice between yes
and no. -/
def writeBool (info : Value) (name : String) (b : Bool) : Except Fault Value := do
  match ← declaredType info name with
  | none | some .null => .ok (.bool b)
  | some type => if ← Choice.isYesNo type then Choice.pick type b else .ok (.bool b)

def slotValue : Option Nat → Value
  | some n => .int n
  | none => .null

mutual

/-- What is sent for a value: an output is sent as the id of its call and its slot, after the call
is added. -/
def write : Value → Prompt → Except Fault (Value × Prompt)
  | .output _ _ info call type inputs slot, p =>
    match p.ids.id? call with
    | some id => .ok (.list [.str id, slotValue slot], p)
    | none => do
      let (written, p) ← writeInputs info inputs p
      let (id, ids) ← p.ids.assign call type
      let entry := Value.dict [("inputs", .dict written), ("class_type", type)]
      .ok (.list [.str id, slotValue slot], ⟨Value.put id entry p.entries, ids⟩)
  | v, p => .ok (v, p)

def writeInputs (info : Value) :
    List (String × Value) → Prompt → Except Fault (List (String × Value) × Prompt)
  | [], p => .ok ([], p)
  | input :: rest, p => do
    let (written, p) ← writeInput info input p
    let (others, p) ← writeInputs info rest p
    .ok (written :: others, p)

def writeInput (info : Value) :
    String × Value → Prompt → Except Fault ((String × Value) × Prompt)
  | (name, v), p => do
    match v with
    | .bool b => .ok ((name, ← writeBool info name b), p)
    | _ =>
      let (written, p) ← write v p
      .ok ((name, written), p)

end

def add (output : Value) (p : Prompt) : Except Fault Prompt := (write output p).map Prod.snd

def ofOutput (output : Value) : Except Fault Prompt :=
  match output with
  | .output .. => add output empty
  | _ => .error .missingField

def groupType : Value := .str "ComfyScript"

/-- No call of a node has this number. -/
def groupCall : Nat := 0

/-- Adds a member of a group; a truth value has no input that could say what it means. -/
def addMember (p : Prompt) (member : Value) : Except Fault Prompt :=
  match member with
  | .bool _ => .error .missingKey
  | v => add v p

/-- The prompt of a group of outputs. The id of the group itself is given last and has no entry. -/
def ofOutputs (outputs : List Value) : Except Fault Prompt :=
  match outputs with
  | [output] => ofOutput output
  | outputs => do
    let p ← outputs.foldlM addMember empty
    let (id, ids) ← p.ids.assign groupCall groupType
    .ok ⟨Value.remove id p.entries, ids⟩

def toValue (p : Prompt) : Value := .dict p.entries

def json (p : Prompt) : Except Fault String := Json.pretty p.toValue

end Prompt

end Flowscript
