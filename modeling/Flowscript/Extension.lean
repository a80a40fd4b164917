import Flowscript.Identifier
import Flowscript.ModulePath
import Flowscript.Table

/-!
# The extension

As an extension of the server, the program sets up the annotation of images and loads the node
packages that are registered as entry points. A package that cannot be loaded is left out with a
line in the log.
-/

namespace Flowscript

structure EntryPoint where
  name : String
  value : String

namespace EntryPoint

def group : String := "comfyui_legacy.custom_nodes"

def text (e : EntryPoint) : String :=
  "EntryPoint(name=" ++ (Value.str e.name).shown ++ ", value=" ++ (Value.str e.value).shown ++
    ", group=" ++ (Value.str group).shown ++ ")"

def isPathChar (c : Char) : Bool := Identifier.isContinue c || c == '.'

def splitMembers (cs : List Char) : List Char × List Char :=
  match cs with
  | ':' :: rest =>
    let rest := Text.trimLeft rest
    let path := rest.takeWhile isPathChar
    if path.isEmpty then ([], cs) else (path, Text.trimLeft (rest.drop path.length))
  | cs => ([], cs)

def isExtras (cs : List Char) : Bool :=
  match Text.trimRight cs with
  | [] => true
  | '[' :: rest => rest.getLast? == some ']' && !rest.contains '\n'
  | _ => false

def pathNames (cs : List Char) : List String :=
  ((String.ofList cs).splitOn ".").filter (!·.isEmpty)

/-- What an entry point stands for: a module, and a path of members in it. -/
def target? (e : EntryPoint) : Option (String × List String) :=
  let path := e.value.toList.takeWhile isPathChar
  let rest := Text.trimLeft (e.value.toList.drop path.length)
  let (members, after) := splitMembers rest
  if !path.isEmpty && isExtras after then some (String.ofList path, pathNames members) else none

def failureLine (e : EntryPoint) : String :=
  "ComfyScript: Failed to load legacy custom nodes from " ++ e.text ++ ": <error>"

end EntryPoint

/-- What loading the extension brings about. -/
structure Extension where
  success : Bool
  hooked : Bool
  loaded : List String
  log : String

namespace Extension

/-- What is said if settings cannot be read. -/
def settingsFailure : String :=
  "\x1b[34mComfyScript: \x1b[91mFailed to setup script translation due to missing dependencies: " ++
    "<error>\nIf you need this feature, try to run:\npython -m pip install -r " ++
    "\"<repo>/requirements.txt\"\n\x1b[0m\n"

def greeting : String := "\x1b[34mComfyScript: \x1b[92mLoaded\x1b[0m\n"

def start (enabled : Option Value) : Extension :=
  match enabled with
  | none => ⟨false, false, [], settingsFailure⟩
  | some (.bool true) => ⟨true, true, [], ""⟩
  | some _ => ⟨true, false, [], ""⟩

/-- The folder of the package behind an entry point; `packages` are the modules at hand with their
folders. -/
def folderOf (packages : List (String × Option (List String))) (e : EntryPoint) : Option String := do
  let (module, _) ← e.target?
  if !ModulePath.importable (Table.has · packages) module then none
  else (← Table.find? module packages).bind List.head?

def addPackage (packages : List (String × Option (List String))) (fails : String → Bool)
    (x : Extension) (e : EntryPoint) : Extension :=
  match folderOf packages e with
  | none => { x with log := x.log ++ e.failureLine ++ "\n" }
  | some folder =>
    { x with
      loaded := x.loaded ++ [folder]
      log := if fails folder then x.log ++ e.failureLine ++ "\n" else x.log }

def load (enabled : Option Value) (entryPoints : List EntryPoint)
    (packages : List (String × Option (List String))) (fails : String → Bool) : Extension :=
  let x := entryPoints.foldl (addPackage packages fails) (start enabled)
  if x.success then { x with log := x.log ++ greeting } else x

end Extension

end Flowscript
