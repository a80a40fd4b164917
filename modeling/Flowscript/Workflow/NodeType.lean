import Flowscript.NodeInfo

/-!
# Node types of a workflow

What a workflow knows of its node types: a server describes most of them, and three kinds exist in
the editor only. The widget values of a node are a list in the order of its widgets; arguments are
listed in the order of its inputs.
-/

namespace Flowscript.Workflow

def rerouteTypes : List String := ["Reroute", "Reroute (rgthree)"]

def typeIn (names : List String) (type : Value) : Bool := names.any fun n => type == .str n

def soleInput (name type : String) : Value :=
  .dict [("required", .dict [(name, .tuple [.str type])])]

def isListed (nodesInfo type : Value) : Except Fault Bool :=
  match nodesInfo with
  | .dict entries =>
    if !type.hashable then .error .wrongKind
    else .ok (type.text?.any fun t => Value.hasKey t entries)
  | .list items => .ok (items.any fun item => item == type)
  | .str s => match type.text? with
    | some t => (Value.str s).containsText t
    | none => .error .wrongKind
  | _ => .error .wrongKind

def inputTypes (nodesInfo type : Value) : Except Fault Value := do
  if typeIn rerouteTypes type then .ok (soleInput "" "*")
  else if type == .str "PrimitiveNode" then .ok (soleInput "value" "*")
  else if type == .str "Note" then .ok (soleInput "" "STRING")
  else if ← isListed nodesInfo type then (← nodesInfo.item type).entry "input"
  else .error (.unknownNode type.text)

def widgetTypes : List String := ["INT", "FLOAT", "STRING", "BOOLEAN"]

/-- The widgets of one input: its own, and those that the editor puts behind it. -/
def widgetsOf (type : Value) (name : String) (config : Value) : Except Fault (List String) := do
  let kind ← config.item (.int 0)
  let own : List String := match kind with
    | .str k =>
      if widgetTypes.contains k then
        if k == "INT" && (name == "seed" || name == "noise_seed") then
          [name, "control_after_generate"]
        else [name]
      else if type == .str "PrimitiveNode" then [name, "control_after_generate"] else []
    | _ => [name]
  if (← config.length) ≤ 1 then return own
  match ← config.item (.int 1) with
  | .dict options => match Value.lookup "image_upload" options with
    | some flag => if flag == .bool true then return own ++ ["upload"] else return own
    | none => return own
  | _ => return own

def widgetNames (nodesInfo type : Value) : Except Fault (List String) := do
  let types ← inputTypes nodesInfo type
  NodeInfo.positionalGroups.foldlM (fun all name => do
    match ← types.get name with
    | none | some .null => .ok all
    | some group => (← group.entries).foldlM (fun all (name, config) => do
        .ok (all ++ (← widgetsOf type name config))) all) []

/-- Names with their values; a name that comes again keeps its place and takes the later value. -/
def zipValues (names : List String) (values : List Value) : List (String × Value) :=
  (names.zip values).foldl (fun acc (n, v) => Value.put n v acc) []

/-- Widget values by name: a record is that already, a list is matched with the widget names. -/
def widgetValues (nodesInfo type values : Value) : Except Fault (List (String × Value)) :=
  match values with
  | .record fields => .ok fields
  | values => do
    let names ← widgetNames nodesInfo type
    .ok (zipValues names (← values.iterate))

def appendInput {α : Type} (arg : String → Option α) (absent : α) (all : List α) (input : Value) :
    Except Fault (List α) :=
  if input.hashable then .ok (all ++ [(input.text?.bind arg).getD absent]) else .error .wrongKind

def appendGroup {α : Type} (arg : String → Option α) (absent : α) (types : Value) (all : List α)
    (name : String) : Except Fault (List α) := do
  match ← types.get name with
  | none | some .null => .ok all
  | some group => (← group.iterate).foldlM (appendInput arg absent) all

/-- Arguments in the order of the inputs of a type, with `absent` where there is none. -/
def positional {α : Type} (nodesInfo type : Value) (arg : String → Option α) (absent : α) :
    Except Fault (List α) := do
  let types ← inputTypes nodesInfo type
  NodeInfo.positionalGroups.foldlM (appendGroup arg absent types) []

end Flowscript.Workflow
