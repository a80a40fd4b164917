import Flowscript.Json.Reader
import Flowscript.Value.Path
import Flowscript.Workflow.OfPrompt
import Flowscript.Workflow.Script

/-!
# Opening workflows

A workflow comes as a document or as a prompt, as a value or as JSON text, in a file of its own or
inside an image.
-/

namespace Flowscript.Workflow

def versionNotice (v : Value) : String :=
  if v == version then "" else "ComfyScript: Unsupported workflow version: " ++ v.text ++ "\n"

/-- The document of a workflow; what has no version is a prompt. -/
def documentOf (workflow nodesInfo : Value) : Except Fault Value := do
  let workflow ← match workflow with
    | .str text => Json.parse text
    | workflow => .ok workflow
  if ← workflow.containsText "version" then .ok workflow.asRecords
  else .ok (← ofPrompt workflow nodesInfo).asRecords

def versionedDocument (workflow nodesInfo : Value) : Except Fault (Value × Value) := do
  let document ← documentOf workflow nodesInfo
  .ok (document, ← document.field "version")

def openWorkflow (workflow nodesInfo : Value) : String × Except Fault Transpiler :=
  match versionedDocument workflow nodesInfo with
  | .error e => ("", .error e)
  | .ok (document, v) =>
    (versionNotice v, (Graph.ofDocument document).map fun graph => ⟨nodesInfo, graph⟩)

/-- The workflow in the text entries of an image, or else its prompt. -/
def workflowOfImage (info : List (String × Value)) : Except Fault Value :=
  match Value.lookup "workflow" info with
  | some w => .ok w
  | none => match Value.lookup "prompt" info with
    | some p => .ok p
    | none => .error .noWorkflowInImage

inductive FileContent where
  | missing
  | text (content : String)
  | image (info : List (String × Value))

/-- The workflow in a file: JSON by its extension, or else in an image. -/
def workflowOfFile (name : String) (content : FileContent) : Except Fault Value :=
  if pathSuffix name == ".json" then
    match content with
    | .missing => .error .fileNotFound
    | .text t => Json.parse t
    | .image _ => .error .notUtf8
  else
    match content with
    | .missing => .error .fileNotFound
    | .text _ => .error .unknownImage
    | .image info => workflowOfImage info

end Flowscript.Workflow
