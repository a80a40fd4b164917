import Flowscript.Value.Access

/-!
# Node descriptions

A node description names the inputs of a node in groups: required ones, optional ones and hidden
ones. Positional arguments are bound to the required and then the optional names.
-/

namespace Flowscript

namespace NodeInfo

def positionalGroups : List String := ["required", "optional"]

def group? (info : Value) (name : String) : Except Fault (Option Value) := do
  match ← (← info.entry "input").get name with
  | none | some .null => .ok none
  | some g => .ok (some g)

/-- Arguments bound to the names of one group; the last part tells whether arguments ran out. -/
def bindNames : List Value → List Value → List (String × Value) →
    List (String × Value) × List Value × Bool
  | [], args, bound => (bound, args, false)
  | _ :: _, [], bound => (bound, [], true)
  | name :: names, arg :: args, bound => bindNames names args (Value.put name.text arg bound)

/-- Arguments bound to the names of several groups; groups after the last argument are not read. -/
def bindGroups (info : Value) :
    List String → List Value → List (String × Value) →
      Except Fault (List (String × Value) × List Value)
  | [], args, bound => .ok (bound, args)
  | name :: names, args, bound => do
    match ← group? info name with
    | none => bindGroups info names args bound
    | some group =>
      let (bound, args, ranOut) := bindNames (← group.iterate) args bound
      if ranOut then .ok (bound, []) else bindGroups info names args bound

def bind (info : Value) (args : List Value) :
    Except Fault (List (String × Value) × List Value) :=
  bindGroups info positionalGroups args []

def surplusNotice (info : Value) (surplus : List Value) : Except Fault String := do
  if surplus.isEmpty then return ""
  let name ← info.entry "name"
  return "ComfyScript: " ++ name.text ++ " has more positional arguments than expected: " ++
    (Value.list surplus).text ++ "\n"

end NodeInfo

def modelExtensions : List String := [
  ".vae.pt", ".vae.safetensors", ".ckpt", ".pt", ".bin", ".pth", ".safetensors", ".yaml"]

def withoutEnding (s ending : String) : String :=
  let cs := s.toList
  let es := ending.toList
  if es.isSuffixOf cs then String.ofList (cs.take (cs.length - es.length)) else s

def modelName (s : String) : String := modelExtensions.foldl withoutEnding s

def resultOf (output : Value) : Value :=
  match output with
  | .null => .result .empty output
  | .dict entries => .result (if Value.hasKey "images" entries then .images else .plain) output
  | _ => .result .plain output

end Flowscript
