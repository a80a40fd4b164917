import Flowscript.Value.Access

/-!
# Node classes

Where nodes are at hand as classes, their descriptions are read off the attributes of the classes.
A class that cannot be described is left out.
-/

namespace Flowscript

/-- A method, with the name of the node that has it. What it gives depends on its positional and its
named arguments only. -/
structure NodeMethod where
  owner : String
  give : List Value → List (String × Value) → Except Fault Value

structure NodeClass where
  module : String
  name : String
  /-- The nodes of this class and its bases, the class itself first. -/
  lineage : List String
  /-- What the class tells about its inputs. -/
  inputs : Except Fault Value
  attributes : List (String × Value)
  methods : List (String × NodeMethod)

namespace NodeClass

def extend (base own : NodeClass) : NodeClass where
  module := own.module
  name := own.name
  lineage := own.lineage ++ base.lineage
  inputs := match own.inputs with
    | .error .missingField => base.inputs
    | inputs => inputs
  attributes := Value.merge base.attributes own.attributes
  methods := own.methods ++ base.methods

def attribute? (c : NodeClass) (name : String) : Option Value := Value.lookup name c.attributes

def toValue (c : NodeClass) : Value := .classRef c.module c.name

/-- Which outputs are lists; by default none is. -/
def outputIsList (c : NodeClass) (output : Value) : Except Fault Value :=
  match c.attribute? "OUTPUT_IS_LIST" with
  | some v => .ok v
  | none => do .ok (.list (List.replicate (← output.length) (.bool false)))

def isOutputNode (c : NodeClass) : Bool :=
  match c.attribute? "OUTPUT_NODE" with
  | some v => v == .bool true
  | none => false

def info (c : NodeClass) (name : String) (displayNames : List (String × Value)) :
    Except Fault Value := do
  let input ← c.inputs
  let output ← match c.attribute? "RETURN_TYPES" with
    | some v => Except.ok v
    | none => .error .missingField
  let isList ← c.outputIsList output
  .ok (.dict [
    ("input", input),
    ("output", output),
    ("output_is_list", isList),
    ("output_name", (c.attribute? "RETURN_NAMES").getD output),
    ("name", .str name),
    ("display_name", (Value.lookup name displayNames).getD (.str name)),
    ("description", (c.attribute? "DESCRIPTION").getD (.str "")),
    ("category", (c.attribute? "CATEGORY").getD (.str "sd")),
    ("output_node", .bool c.isOutputNode),
    ("_cls", c.toValue)])

end NodeClass

def nodesInfoOf (classes : List (String × NodeClass)) (displayNames : List (String × Value)) :
    Value :=
  .dict (classes.filterMap fun (name, c) => match c.info name displayNames with
    | .ok info => some (name, info)
    | .error _ => none)

end Flowscript
