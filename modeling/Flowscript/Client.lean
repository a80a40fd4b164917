import Flowscript.Server

/-!
# The client

Where the server is, and what it is asked about nodes and embeddings.
-/

namespace Flowscript

namespace Client

def defaultUrl : String := "http://127.0.0.1:8188/"

def baseUrl (address : Value) : String :=
  let url := match address with
    | .null => defaultUrl
    | v => v.text
  let url := if url.startsWith "http://" || url.startsWith "https://" then url
    else "http://" ++ url
  if url.endsWith "/" then url else url ++ "/"

def nodesInfo (reply : Reply) : Except Fault Value := reply.listing "nodes info"

def embeddings (reply : Reply) : Except Fault Value := reply.listing "embeddings"

end Client

def splitFolder (cs : List Char) : List Char × List Char :=
  let name := (cs.reverse.takeWhile (· != '/')).reverse
  (cs.take (cs.length - name.length), name)

/-- A file name without its last extension; dots in front of a name begin no extension. -/
def fileStem (path : String) : String :=
  let (folder, name) := splitFolder path.toList
  let dots := name.takeWhile (· == '.')
  let rest := name.drop dots.length
  let extension := rest.reverse.takeWhile (· != '.')
  let stem := if extension.length < rest.length then
      rest.take (rest.length - extension.length - 1)
    else rest
  String.ofList (folder ++ dots ++ stem)

def commandLine (arguments : List Value) : Except Fault (List String) :=
  arguments.mapM fun v => match v.text? with
    | some s => .ok s
    | none => .error (.badArgument v)

end Flowscript
