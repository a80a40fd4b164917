import Flowscript.Workflow.NodeType

/-!
# Multiplexer nodes

A multiplexer mixes or chooses between inputs of one type. For certain widget values its result is
one of these inputs alone: the others are then not followed, and the node needs no statement.
-/

namespace Flowscript.Workflow

structure Selection where
  input : String
  widgets : List (String × Value)

structure Multiplexer where
  nodeType : String
  channel : String
  selections : List Selection

def numbered (nodeType channel stem : String) (count : Nat) : Multiplexer where
  nodeType := nodeType
  channel := channel
  selections := (List.range count).map fun (i : Nat) =>
    ⟨stem ++ Value.intText (i + 1), [("Input", .int (i + 1))]⟩

/-- A multiplexer whose first input is chosen by one value of a widget and whose second input by
another value of it. -/
def weighted (nodeType channel first second widget : String) (forFirst forSecond : Int) :
    Multiplexer where
  nodeType := nodeType
  channel := channel
  selections := [⟨first, [(widget, .int forFirst)]⟩, ⟨second, [(widget, .int forSecond)]⟩]

def multiplexers : List Multiplexer := [
  weighted "CLIPMergeSimple" "CLIP" "clip1" "clip2" "ratio" 1 0,
  weighted "ConditioningAverage" "CONDITIONING" "conditioning_to" "conditioning_from"
    "conditioning_to_strength" 1 0,
  numbered "CR Clip Input Switch" "CLIP" "clip" 2,
  numbered "CR Conditioning Input Switch" "CONDITIONING" "conditioning" 2,
  numbered "CR ControlNet Input Switch" "CONTROL_NET" "control_net" 2,
  numbered "CR Image Input Switch" "IMAGE" "image" 2,
  numbered "CR Image Input Switch (4 way)" "IMAGE" "image" 4,
  numbered "CR Latent Input Switch" "LATENT" "latent" 2,
  numbered "CR Model Input Switch" "MODEL" "model" 2,
  numbered "CR Pipe Switch" "PIPE_LINE" "pipe" 2,
  ⟨"ImageBlend", "IMAGE", [
    ⟨"image1", [("blend_mode", .str "normal"), ("blend_factor", .int 0)]⟩,
    ⟨"image2", [("blend_mode", .str "normal"), ("blend_factor", .int 1)]⟩]⟩,
  ⟨"LatentBlend", "LATENT", [
    ⟨"samples1", [("blend_mode", .str "normal"), ("blend_factor", .int 1)]⟩,
    ⟨"samples2", [("blend_mode", .str "normal"), ("blend_factor", .int 0)]⟩]⟩,
  ⟨"ModelMergeBlocks", "MODEL", [
    ⟨"model1", [("input", .int 1), ("middle", .int 1), ("out", .int 1)]⟩,
    ⟨"model2", [("input", .int 0), ("middle", .int 0), ("out", .int 0)]⟩]⟩,
  weighted "ModelMergeSimple" "MODEL" "model1" "model2" "ratio" 1 0]

def multiplexer? (type : Value) : Except Fault (Option Multiplexer) :=
  if type.hashable then .ok (multiplexers.find? fun m => type == .str m.nodeType)
  else .error .wrongKind

namespace Multiplexer

/-- The widget values choose this input; a widget that is not there does not count. -/
def chooses (widgets : List (String × Value)) (s : Selection) : Bool :=
  s.widgets.all fun (name, value) => match Value.lookup name widgets with
    | some v => v == value
    | none => true

def select (m : Multiplexer) (widgets : List (String × Value)) : Option String :=
  (m.selections.find? (chooses widgets)).map Selection.input

/-- An input is followed after a choice: it is the chosen one, or of another type. -/
def keeps (m : Multiplexer) (chosen : String) (input : Value) : Except Fault Bool := do
  if (← input.field "type") == .str m.channel then
    .ok ((← input.field "name") == .str chosen)
  else .ok true

end Multiplexer

def choice? (type : Value) (widgets : List (String × Value)) :
    Except Fault (Option (Multiplexer × String)) := do
  match ← multiplexer? type with
  | none => .ok none
  | some m => .ok ((m.select widgets).map fun chosen => (m, chosen))

def followed (type : Value) (widgets : List (String × Value)) (inputs : List Value) :
    Except Fault (List Value) := do
  match ← choice? type widgets with
  | none => .ok inputs
  | some (m, chosen) => inputs.filterM fun input => m.keeps chosen input

end Flowscript.Workflow
