import Flowscript.Value.Render

/-!
# Faults

What can go wrong, as causes. Faults of the first group come from reading a value as something that
it is not; those of the second come from what surrounds the program; those of the third are the
program's own checks, and each has a message.
-/

namespace Flowscript

inductive Fault where
  | missingKey
  | missingField
  | outOfRange
  | wrongKind
  /-- A value of the right kind is not acceptable. -/
  | badValue
  | overflow
  | divisionByZero
  | endless
  | malformedJson
  | notUtf8
  | notLatin
  | truncated
  | unknownImage
  | fileNotFound
  | moduleNotFound
  | unreachable
  /-- A result was awaited that is not there yet. -/
  | pending
  /-- A name stands for nothing. -/
  | unbound
  | notText (value : Value)
  /-- A choice of two that is not between yes and no. -/
  | notYesOrNo (value : Value)
  /-- A statement does not have the form that its node promises. -/
  | unexpectedStatement (statement : String)
  /-- An internal condition does not hold. -/
  | broken
  | unknownNode (type : String)
  | noWorkflowInImage
  | badEndNodes (nodes : Value) (first : Value)
  | badWorkflow (value : Value)
  | badArgument (value : Value)
  | badImage (value : Value)
  | emptyOutput (name : String) (value : Value)
  | hookInUse
  | refused (what : String) (answer : String)
  | abstractOperation
  | programNotFound (directory : String)
  | exit (code : Int)

namespace Fault

/-- The message of a check that failed. -/
def message : Fault → Option String
  | notText v => some s!"Expected str, got {v.kindText}: {v.text}"
  | notYesOrNo v => some s!"Invalid bool enum: {v.text}"
  | unexpectedStatement s => some s
  | broken => some ""
  | unknownNode t => some ("Node not found: " ++ t ++ ". If this node is an UI-only virtual node " ++
      "(e.g. custom Reroute, PrimitiveNode, Note nodes), you can workaround this problem by " ++
      "exporting the API format workflow and transpiling it. Please report this issue in " ++
      "https://github.com/Chaoses-Ib/ComfyScript/issues .")
  | noWorkflowInImage => some "No workflow in the image"
  | badEndNodes nodes first =>
    some s!"end_nodes of wrong type: {first.kindText} {nodes.text}"
  | badWorkflow v => some s!"ComfyScript: Invalid workflow type: {v.text}"
  | badArgument v => some s!"ComfyScript: Invalid argv type: {v.text}"
  | badImage v => some s!"Invalid image type: {v.kindText}"
  | emptyOutput name v => some s!"Argument \"{name}\" is an empty output: {v.text}"
  | hookInUse => some "Output hook already set"
  | refused what answer => some s!"ComfyScript: Failed to get {what}: {answer}"
  | abstractOperation => some ""
  | programNotFound d => some s!"ComfyUI is not found at {d} and comfyui package"
  | _ => none

def text (f : Fault) : String := f.message.getD "<error>"

end Fault

end Flowscript
