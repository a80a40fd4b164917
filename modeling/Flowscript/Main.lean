import Flowscript.CommandLine

/-!
# The program

The program prints the script of the workflow in a file. The descriptions of the nodes, as a server
lists them, are read from standard input.
-/

namespace Flowscript.CommandLine

def usage : String :=
  "Usage: [OPTIONS] WORKFLOW\n\n" ++
    "Options:\n" ++
    "  --api URL  [default: http://127.0.0.1:8188/]\n" ++
    "  --runtime  Wrap the script with runtime imports and workflow context.\n" ++
    "  --help     Show this message and exit."

def readFile? (name : String) : IO (Option String) := do
  try
    return some (← IO.FS.readFile name)
  catch _ => return none

def readFiles (arguments : List String) : IO (List (String × String)) := do
  match parse .none arguments with
  | .none => return []
  | some a => a.files.filterMapM fun name => do return (← readFile? name).map fun text => (name, text)

def readNodesInfo : IO Value := do
  match Json.parse (← (← IO.getStdin).readToEnd) with
  | .ok info => return info
  | .error _ => return .dict []

end Flowscript.CommandLine

open Flowscript in
def main (arguments : List String) : IO UInt32 := do
  let files ← CommandLine.readFiles arguments
  let info ← if files.isEmpty then pure (Value.dict []) else CommandLine.readNodesInfo
  match CommandLine.run (Table.find? · files) (fun _ => info) arguments with
  | .help =>
    IO.println CommandLine.usage
    return 0
  | .usageError =>
    IO.eprintln CommandLine.usage
    return 2
  | .done _ answer =>
    IO.print answer.log
    for warning in answer.warnings do
      IO.eprintln warning
    match answer.script with
    | .ok script =>
      IO.println script
      return 0
    | .error e =>
      IO.eprintln (e.message.getD "The workflow cannot be read.")
      return 1
