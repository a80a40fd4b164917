import Flowscript.Registry.Hint
import Flowscript.Text.Lines

/-!
# Node declarations

The declaration of a node lists its parameters, documents it, and holds the enumerations of its
inputs. A parameter without a default value cannot follow one with a default, so the default values
before the last parameter without one are dropped, and the value none stands for them.
-/

namespace Flowscript

structure Parameter where
  id : String
  hint : String
  default : Option String

namespace Parameter

def text (p : Parameter) : String :=
  p.id ++ ": " ++ p.hint ++ match p.default with
    | some d => " = " ++ d
    | none => ""

def hasDefault (p : Parameter) : Bool := p.default.isSome || p.hint.toList.contains '='

def withoutDefault (p : Parameter) : Parameter :=
  let hint := Text.trimRight (p.hint.toList.takeWhile (· != '='))
  { p with hint := String.ofList hint ++ " | None", default := none }

def dropDefaults : List Parameter → List Parameter
  | [] => []
  | p :: rest =>
    (if p.hasDefault && rest.any fun q => !q.hasDefault then p.withoutDefault else p)
      :: dropDefaults rest

def anyDropped : List Parameter → Bool
  | [] => false
  | p :: rest => (p.hasDefault && rest.any fun q => !q.hasDefault) || anyDropped rest

end Parameter

def limitText (id : String) (config : List (String × Value)) : String :=
  if !(Value.hasKey "min" config || Value.hasKey "max" config || Value.hasKey "round" config) then ""
  else
    let part (key before behind : String) : String := match Value.lookup key config with
      | some v => before ++ v.text ++ behind
      | none => ""
    "\n- `" ++ id ++ "`: " ++ part "min" "" " ≤ " ++ "`" ++ id ++ "`" ++
      part "max" " ≤ " "" ++ part "round" " (rounded to " ")"

def limitTexts (configs : List (String × List (String × Value))) : String :=
  let texts := String.join (configs.map fun (id, config) => limitText id config)
  if texts.isEmpty then "" else texts ++ "\n"

/-- The name of the module that defines a node; of a path, only the last two parts. -/
def moduleText (module : String) : String :=
  if module.toList.contains '/' || module.toList.contains '\\' then
    let parts := ((module.splitOn "/").filter fun p => p != "" && p != ".").reverse
    (parts.drop 1).headD "" ++ "/" ++ parts.headD ""
  else module

def documentation (info : Value) (classId : String) (parameters : List Parameter)
    (result : String) (configs : List (String × List (String × Value))) :
    Except Fault String := do
  let signature := "```\ndef " ++ classId ++ "(\n    " ++
    ",\n    ".intercalate (parameters.map Parameter.text) ++ "\n)" ++ result ++ "\n```"
  let displayName ← info.entry "display_name"
  let display := if displayName == .str classId then "" else "\n" ++ displayName.text ++ "\n"
  let description ← info.entry "description"
  let described := if description == .str "" then "" else "\n" ++ description.text ++ "\n"
  let module := match ← info.get "_cls" with
    | some (.classRef m _) => "\nModule: `" ++ moduleText m ++ "`\n"
    | _ => ""
  let category ← info.entry "category"
  let limits := limitTexts configs
  let output := if (← info.entry "output_node").truthy then "\nOutput node.\n" else ""
  let notice := if Parameter.anyDropped parameters then
      "\nUse `None` to use default values of arguments that appear before any " ++
        "non-default argument.\n"
    else ""
  .ok (signature ++ display ++ described ++ module ++ "\nCategory: " ++ category.text ++ "\n" ++
    limits ++ output ++ notice)

def declaration (classId doc : String) (parameters : List Parameter) (result enumStubs : String) :
    String :=
  let quote := if (doc.splitOn "'''").length == 1 then "'''" else "\"\"\""
  "class " ++ classId ++ ":\n" ++ Text.indent "    " (quote ++ doc ++ quote) ++ "\n" ++
    "    def __new__(cls, " ++
    ", ".intercalate ((Parameter.dropDefaults parameters).map Parameter.text) ++ ")" ++ result ++
    ": ...\n" ++ enumStubs

end Flowscript
