import Flowscript.Metadata.Chunk
import Flowscript.Workflow.Document

/-!
# Annotating images

Texts that are to be saved with an image are held back until the chunks are read. Then the script
of the workflow among them is made and saved as well, in front of all else. If the script cannot be
made, the texts are saved without it.
-/

namespace Flowscript

namespace Workflow

def scriptOf (workflow nodesInfo ends : Value) (standalone : Bool) : ScriptAnswer :=
  match openWorkflow workflow nodesInfo with
  | (log, .error e) => ⟨log, [], .error e⟩
  | (log, .ok t) =>
    let answer := (t.script ends standalone).1
    { answer with log := log ++ answer.log }

end Workflow

structure AnnotationSettings where
  printScript : Value
  saveScript : Value
  /-- The prompt is taken before the document. -/
  prefersPrompt : Value

/-- Metadata of an image: the chunks, and the texts held back, each with the wish to be
compressed. -/
structure Annotation where
  chunks : List Chunk
  texts : List (String × Value × Bool)

namespace Annotation

def empty : Annotation := ⟨[], []⟩

def add (a : Annotation) (c : Chunk) : Annotation := { a with chunks := a.chunks ++ [c] }

def addText (a : Annotation) (key : String) (value : Value) (zip : Bool) : Annotation :=
  { a with texts := Table.put key (value, zip) a.texts }

def isTrue : Value → Bool
  | .bool true => true
  | _ => false

structure ScriptText where
  log : String
  warnings : List String
  script : Except Fault (String × Bool)

def scriptUnder (a : Annotation) (key : String) (nodesInfo ends : Value) : ScriptText :=
  match Table.find? key a.texts with
  | none => ⟨"", [], .error .missingKey⟩
  | some (workflow, zip) =>
    let r := Workflow.scriptOf workflow nodesInfo ends false
    ⟨r.log, r.warnings, r.script.map fun s => (s, zip)⟩

def fallbackWarning : String :=
  "Failed to transpile workflow in web UI format, fallbacking to API format... If this fixes the " ++
    "problem, you can suppress this warning by setting \x60transpile.hook.prefer_api_format\x60 to " ++
    "\x60true\x60 in a \x60settings.toml\x60, see \x60settings.example.toml\x60 for details. Please " ++
    "report this issue in https://github.com/Chaoses-Ib/ComfyScript/issues ."

def script (a : Annotation) (settings : AnnotationSettings) (nodesInfo ends : Value) :
    ScriptText :=
  if !settings.prefersPrompt.truthy && Table.has "workflow" a.texts then
    let first := a.scriptUnder "workflow" nodesInfo ends
    match first.script with
    | .ok _ => first
    | .error _ =>
      let second := a.scriptUnder "prompt" nodesInfo ends
      { second with
        log := first.log ++ second.log
        warnings := first.warnings ++ [fallbackWarning] ++ second.warnings }
  else a.scriptUnder "prompt" nodesInfo ends

structure Reading where
  log : String
  warnings : List String
  chunks : List Chunk

def scriptChunk (settings : AnnotationSettings) (made : Except Fault (String × Bool)) : List Chunk :=
  match made with
  | .error _ => []
  | .ok (script, zip) =>
    if isTrue settings.saveScript then
      match Chunk.ofText "ComfyScript" (.str script) zip with
      | .ok c => [c]
      | .error _ => []
    else []

def printed (settings : AnnotationSettings) (made : Except Fault (String × Bool)) : String :=
  match made with
  | .ok (script, _) => if isTrue settings.printScript then "ComfyScript:\n" ++ script ++ "\n" else ""
  | .error _ => ""

def readScript (a : Annotation) (settings : AnnotationSettings) (nodesInfo : Value)
    (node : Option Value) : Reading :=
  if !(isTrue settings.printScript || isTrue settings.saveScript) then ⟨"", [], []⟩
  else if !(Table.has "workflow" a.texts || Table.has "prompt" a.texts) then
    ⟨"ComfyScript: Failed to save ComfyScript because neither of workflow and prompt is in " ++
      "extra_pnginfo\n", [], []⟩
  else
    let (note, ends) := match node with
      | some id => ("", Value.list [id])
      | none => ("ComfyScript: Failed to resolve the id of current node.\n", .null)
    let made := a.script settings nodesInfo ends
    ⟨note ++ made.log ++ printed settings made.script, made.warnings,
      scriptChunk settings made.script⟩

def sourceKey : String := "ComfyScriptSource"

/-- The chunk of the source of a script, which is kept as JSON, and the texts without it. A source
that is no JSON text stays among the texts. -/
def readSource (texts : List (String × Value × Bool)) :
    List Chunk × List (String × Value × Bool) :=
  let chunk : Option Chunk := do
    let (value, zip) ← Table.find? sourceKey texts
    let source ← (Json.parse (← value.text?)).toOption
    (Chunk.ofText sourceKey source zip).toOption
  match chunk with
  | some c => ([c], Table.erase sourceKey texts)
  | none => ([], texts)

/-- The chunks of texts, as far as they can be saved, and the fault that ended them. -/
def textChunks : List (String × Value × Bool) → List Chunk × Option Fault
  | [] => ([], none)
  | (key, value, zip) :: rest =>
    match Chunk.ofText key value zip with
    | .error e => ([], some e)
    | .ok c =>
      let (chunks, fault) := textChunks rest
      (c :: chunks, fault)

/-- Reads the chunks. The texts held back become chunks in front of the others; if one of them
cannot be saved, the others are lost and the texts stay. -/
def read (a : Annotation) (settings : AnnotationSettings) (nodesInfo : Value)
    (node : Option Value) : Reading × Except Fault (List Chunk) × Annotation :=
  if a.texts.isEmpty then (⟨"", [], []⟩, .ok a.chunks, a)
  else
    let reading := a.readScript settings nodesInfo node
    let (source, texts) := readSource a.texts
    let (added, fault) := textChunks texts
    let front := reading.chunks ++ source ++ added
    match fault with
    | some e => (reading, .error e, ⟨front, texts⟩)
    | none => (reading, .ok (front ++ a.chunks), ⟨front ++ a.chunks, []⟩)

end Annotation

end Flowscript
