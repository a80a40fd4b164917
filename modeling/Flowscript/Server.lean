import Flowscript.Json.Writer
import Flowscript.Value.Access

/-!
# The server

The server is described by what it replies: for each route a list of replies, which are used up in
order until only the last one is left. Requests are kept in the order they are made.
-/

namespace Flowscript

inductive Content where
  | image (width height : Nat)
  | bytes

structure Response where
  status : Value
  json : Except String Value
  content : Content

inductive Reply where
  | answer (response : Response)
  | noConnection

structure Request where
  method : String
  url : String
  parameters : Option Value
  body : Option Value

def afterScheme : List Char → List Char
  | [] => []
  | ':' :: '/' :: '/' :: rest => rest
  | _ :: rest => afterScheme rest

def route (url : String) : String :=
  String.ofList (((afterScheme url.toList).dropWhile (· != '/')).drop 1)

structure Server where
  routes : List (String × List Reply)

def Response.notFound : Response := ⟨.int 404, .ok (.dict []), .bytes⟩

def Response.ofJson (v : Value) : Response := ⟨.int 200, .ok v, .bytes⟩

def Response.describe (r : Response) : String :=
  "<Response " ++ r.status.text ++ ">" ++ match r.json with
    | .error text => text
    | .ok v => match Json.pretty v with
      | .ok text => text
      | .error e => e.text

def Response.succeeded (r : Response) : Bool := r.status == .int 200

def Response.body (r : Response) : Except Fault Value :=
  match r.json with
  | .ok v => .ok v
  | .error _ => .error .badValue

namespace Server

def next : List Reply → Reply × List Reply
  | [] => (.answer .notFound, [])
  | [reply] => (reply, [reply])
  | reply :: rest => (reply, rest)

def ask (s : Server) (route : String) : Reply × Server :=
  match s.routes.find? fun (r, _) => r == route with
  | none => (.answer .notFound, s)
  | some (_, replies) =>
    let (reply, rest) := next replies
    (reply, ⟨s.routes.map fun (r, old) => if r == route then (r, rest) else (r, old)⟩)

end Server

def Reply.listing (reply : Reply) (what : String) : Except Fault Value :=
  match reply with
  | .noConnection => .error .unreachable
  | .answer r => if r.succeeded then r.body else .error (.refused what r.describe)

end Flowscript
