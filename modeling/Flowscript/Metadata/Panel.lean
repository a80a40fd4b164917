import Flowscript.Metadata.Annotation

/-!
# The metadata panel

A panel shows the script of the last image or workflow that was dropped on it, and the source of the
script if the image has one.
-/

namespace Flowscript

structure Panel where
  script : String
  source : String

namespace Panel

def empty : Panel := ⟨"", ""⟩

def codeBlock (code : String) : String := "\x60\x60\x60python\n" ++ code ++ "\x60\x60\x60"

def page (p : Panel) : List String :=
  codeBlock p.script :: if p.source.isEmpty then [] else [codeBlock p.source]

def dropWarning : String :=
  "Failed to transpile workflow in web UI format, fallbacking to API format..."

def scriptOfImage (info : List (String × Value)) (nodesInfo : Value) :
    String × List String × Except Fault (Option String) :=
  let find (key : String) : Option Value := Value.lookup key info
  let make (workflow : Value) : Workflow.ScriptAnswer :=
    Workflow.scriptOf workflow nodesInfo .null false
  let shown (r : Workflow.ScriptAnswer) : String × List String × Except Fault (Option String) :=
    (r.log, r.warnings, r.script.map some)
  match find "ComfyScript", find "workflow", find "prompt", find "parameters" with
  | some s, _, _, _ => ("", [], .ok (some s.text))
  | none, some w, prompt, _ =>
    let first := make w
    match first.script, prompt with
    | .ok _, _ => shown first
    | .error _, none => (first.log, first.warnings ++ [dropWarning], .error .missingKey)
    | .error _, some p =>
      let (log, warnings, script) := shown (make p)
      (first.log ++ log, first.warnings ++ [dropWarning] ++ warnings, script)
  | none, none, some p, _ => shown (make p)
  | none, none, none, some s => ("", [], .ok (some s.text))
  | none, none, none, none => ("", [], .ok none)

def update (p : Panel) (script : Option String) (info : List (String × Value)) : Panel where
  script := script.getD p.script
  source := match Value.lookup "ComfyScriptSource" info with
    | some s => s.text
    | none => p.source

def drop (p : Panel) (content : Workflow.FileContent) (nodesInfo : Value) :
    String × List String × Except Fault Unit × Panel :=
  match content with
  | .missing => ("", [], .error .fileNotFound, p)
  | .text t =>
    if t.startsWith "\x7b" then
      let r := Workflow.scriptOf (.str t) nodesInfo .null false
      match r.script with
      | .ok s => (r.log, r.warnings, .ok (), { p with script := s })
      | .error e => (r.log, r.warnings, .error e, p)
    else ("", [], .error .unknownImage, p)
  | .image info =>
    match scriptOfImage info nodesInfo with
    | (log, warnings, .ok script) => (log, warnings, .ok (), p.update script info)
    | (log, warnings, .error e) => (log, warnings, .error e, p)

end Panel

end Flowscript
