import Flowscript.Client
import Flowscript.Metadata.Annotation

/-!
# The command line

The command makes a script of a workflow in a file. Options may stand before and after the file.
-/

namespace Flowscript.CommandLine

structure Arguments where
  files : List String
  api : Option String
  standalone : Bool
  help : Bool

def Arguments.none : Arguments := ⟨[], Option.none, false, false⟩

def isOption (s : String) : Bool := s.startsWith "-" && s.length > 1

/-- An option and the value written after an equals sign. -/
def splitOption (s : String) : String × Option String :=
  let name := s.toList.takeWhile (· != '=')
  if name.length < s.length then
    (String.ofList name, some (String.ofList (s.toList.drop (name.length + 1))))
  else (s, .none)

/-- The meaning of arguments, or none if they cannot be understood. -/
def parse (a : Arguments) : List String → Option Arguments
  | [] => some a
  | s :: rest =>
    if s == "--" then some { a with files := a.files ++ rest }
    else if !isOption s then parse { a with files := a.files ++ [s] } rest
    else match splitOption s with
      | ("--runtime", .none) => parse { a with standalone := true } rest
      | ("--help", .none) => parse { a with help := true } rest
      | ("--api", some url) => parse { a with api := some url } rest
      | ("--api", .none) => match rest with
        | url :: rest => parse { a with api := some url } rest
        | [] => .none
      | _ => .none

inductive Outcome where
  | help
  | usageError
  /-- The address of the server that was asked, and what the command says. -/
  | done (baseUrl : String) (answer : Workflow.ScriptAnswer)

/-- What the command does; `read` gives the content of a file and `ask` the node descriptions that
a server has. -/
def run (read : String → Option String) (ask : String → Value) (arguments : List String) :
    Outcome :=
  match parse .none arguments with
  | .none => .usageError
  | some a =>
    if a.help then .help
    else match a.files with
      | [file] => match read file with
        | .none => .usageError
        | some text =>
          let url := Client.baseUrl (.str (a.api.getD Client.defaultUrl))
          .done url (Workflow.scriptOf (.str text) (ask url) .null a.standalone)
      | _ => .usageError

end Flowscript.CommandLine
