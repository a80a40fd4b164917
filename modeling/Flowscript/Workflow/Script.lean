import Flowscript.Number.Whole
import Flowscript.Text.Lines
import Flowscript.Workflow.Emission

/-!
# Scripts of workflows

A script has the statements of the nodes that its end nodes need, in their order. The graph keeps
the variables and the order of inputs and outputs that a script has brought about, so a second
script of the same graph starts from them.
-/

namespace Flowscript.Workflow

structure Transpiler where
  nodesInfo : Value
  graph : Graph

structure ScriptAnswer where
  log : String
  warnings : List String
  script : Except Fault String

namespace Transpiler

/-- End nodes as ids of the graph: texts may stand for numbers, and numbers for texts. If the texts
are no numbers, that is noted and the graph's own end nodes are taken. -/
def resolveEnds (t : Transpiler) (ends : Value) : Except Fault (String × Option Value) := do
  match ends with
  | .null => return ("", none)
  | ends =>
    if (← ends.length) == 0 then return ("", some ends)
    let first ← ends.item (.int 0)
    if ← t.graph.hasVertex first then return ("", some ends)
    match first with
    | .str _ => match (← ends.iterate).mapM Value.whole with
      | .ok numbers => return ("", some (.list (numbers.map .int)))
      | .error .badValue =>
        return ("ComfyScript: end_nodes does not exist and cannot be converted to int: " ++
          ends.text ++ "\n", none)
      | .error e => .error e
    | .int _ | .bool _ =>
      return ("", some (.list ((← ends.iterate).map fun v => .str v.text)))
    | first => .error (.badEndNodes ends first)

def emitAll (nodesInfo : Value) : List Value → Drafting (List Contribution)
  | [] => return []
  | id :: rest => do
    let c ← emit nodesInfo id
    return c :: (← emitAll nodesInfo rest)

/-- The result of the statements of an order that may end in a fault. -/
def orFault {α : Type} (fault : Option Fault) (result : Except Fault α) : Except Fault α :=
  match result, fault with
  | .error e, _ => .error e
  | .ok _, some e => .error e
  | .ok a, none => .ok a

def contributions (t : Transpiler) (ends : Option Value) :
    List String × Except Fault (List Contribution) × Transpiler :=
  let ordered := order t.nodesInfo t.graph ends
  let run := (emitAll t.nodesInfo ordered.2.items).run ⟨t.graph, []⟩
  (ordered.1, orFault ordered.2.fault run.1, { t with graph := run.2.graph })

def withImports (script : String) : String :=
  "from comfy_script.runtime import *\nload()\nfrom comfy_script.runtime.nodes import *\n\n" ++
    "with Workflow():\n" ++ Text.indent "    " script

def textOf (standalone : Bool) (cs : List Contribution) : String :=
  let lines := String.join (cs.map Contribution.line)
  if standalone then withImports lines else lines

def script (t : Transpiler) (ends : Value) (standalone : Bool) : ScriptAnswer × Transpiler :=
  match t.resolveEnds ends with
  | .error e => (⟨"", [], .error e⟩, t)
  | .ok (log, ends) =>
    let (warnings, result, t) := t.contributions ends
    (⟨log, warnings, result.map (textOf standalone)⟩, t)

end Transpiler

end Flowscript.Workflow
