import Flowscript.Value.Record
import Flowscript.Proofs.Workflow.Links
import Flowscript.Proofs.Workflow.Signature

/-!
# Widget values of a node

The editor keeps the widget values of a node in one list, in the order of the declared inputs. Some
widgets have no input of their own: one stands behind every seed, and one behind every input that
takes an uploaded image. Read with the names of the widgets, the list gives each input that is a
widget its own value, wherever those others stand between them.
-/

namespace Flowscript

open List

namespace Workflow

variable {input : String × Value}

def kindOf (config : Value) : Value := config.items.headD .null

/-- The editor shows the input as a widget: it is a choice, a number, a text or a truth value. -/
def isWidget (config : Value) : Bool :=
  match kindOf config with
  | .list _ | .tuple _ => true
  | .str kind => kind == "INT" || kind == "FLOAT" || kind == "STRING" || kind == "BOOLEAN"
  | _ => false

/-- The input is a whole number that something random starts from. -/
def isSeed (input : String × Value) : Bool :=
  (input.1 == "seed" || input.1 == "noise_seed") && kindOf input.2 == .str "INT"

def uploads (config : Value) : Bool :=
  (config.items.getD 1 .null).part "image_upload" == .bool true

structure Setting where
  value : Value
  control : Value
  upload : Value

/-- What the editor keeps for an input: its value if it is a widget, and a value for each widget that
stands behind it. -/
def storedFor (input : String × Value) (s : Setting) : List Value :=
  (if isWidget input.2 then [s.value] else []) ++ (if isSeed input then [s.control] else []) ++
    (if uploads input.2 then [s.upload] else [])

def namesFor (input : String × Value) : List String :=
  (if isWidget input.2 then [input.1] else []) ++
    (if isSeed input then ["control_after_generate"] else []) ++
    (if uploads input.2 then ["upload"] else [])

def IsDeclared (config : Value) : Prop := ∃ kind options, IsType kind ∧ Lists config (kind :: options)

theorem Lists.items_eq {v : Value} {items : List Value} (h : Lists v items) : v.items = items := by
  rcases h with rfl | rfl <;> rfl

/-- The widgets that the type of an input decides on: its own, and the one behind a seed. -/
def ownNames (type : Value) (name : String) : Value → List String
  | .str k =>
    if widgetTypes.contains k then
      if k == "INT" && (name == "seed" || name == "noise_seed") then [name, "control_after_generate"]
      else [name]
    else if type == .str "PrimitiveNode" then [name, "control_after_generate"] else []
  | _ => [name]

theorem widgetsOf_of_lists (type : Value) (name : String) {config kind : Value} {options : List Value}
    (h : Lists config (kind :: options)) : widgetsOf type name config =
      .ok (ownNames type name kind ++ if uploads config then ["upload"] else []) := by
  have hkind : config.item (.int 0) = .ok kind := h.item (i := 0) rfl
  unfold widgetsOf uploads
  rw [hkind, ok_bind, h.length, ok_bind, h.items_eq]
  cases options with
  | nil => exact congrArg Except.ok (append_nil _).symm
  | cons option rest =>
    have hoption : config.item (.int 1) = .ok option := h.item (i := 1) rfl
    rw [if_neg (by simp), hoption, ok_bind, getD_cons_succ, getD_cons_zero]
    cases option with
    | dict entries =>
      have hpart : (Value.dict entries).part "image_upload" =
        (Value.lookup "image_upload" entries).getD .null := rfl
      rw [hpart]
      dsimp only
      cases Value.lookup "image_upload" entries with
      | none => exact congrArg Except.ok (append_nil _).symm
      | some flag =>
        rw [Option.getD_some]
        dsimp only
        cases (flag == .bool true) with
        | false => exact congrArg Except.ok (append_nil _).symm
        | true => rfl
    | _ => exact congrArg Except.ok (append_nil _).symm

theorem ownNames_eq {type : Value} (htype : (type == .str "PrimitiveNode") = false) (name : String)
    {config : Value} (hkind : IsType (kindOf config)) :
    ownNames type name (kindOf config) = (if isWidget config then [name] else []) ++
      (if isSeed (name, config) then ["control_after_generate"] else []) := by
  unfold isWidget isSeed
  dsimp only
  cases hk : kindOf config with
  | str k =>
    by_cases hint : k = "INT"
    · subst hint
      by_cases hname : name = "seed" ∨ name = "noise_seed" <;> simp [ownNames, widgetTypes, hname]
    · simp [ownNames, widgetTypes, hint, htype, or_assoc]
  | list items => simp [ownNames, BEq.beq, Value.same, Value.sameLeaf, Value.number?, Value.text?]
  | tuple items => simp [ownNames, BEq.beq, Value.same, Value.sameLeaf, Value.number?, Value.text?]
  | _ => rw [hk] at hkind; cases hkind

theorem widgetsOf_eq {type : String} (htype : type ∉ editorTypes) (h : IsDeclared input.2) :
    widgetsOf (.str type) input.1 input.2 = .ok (namesFor input) := by
  obtain ⟨kind, options, hkind, hlists⟩ := h
  have hprimitive : (Value.str type == .str "PrimitiveNode") = false := by
    rw [Value.str_beq_str, beq_eq_false_iff_ne]
    rintro rfl
    exact htype (by decide)
  obtain rfl : kindOf input.2 = kind := by rw [kindOf, hlists.items_eq, headD_cons]
  rw [widgetsOf_of_lists _ _ hlists, ownNames_eq hprimitive input.1 hkind]
  rfl

def appendWidgets (type : Value) (all : List String) (input : String × Value) :
    Except Fault (List String) := do
  .ok (all ++ (← widgetsOf type input.1 input.2))

def appendGroupWidgets (type types : Value) (all : List String) (name : String) :
    Except Fault (List String) := do
  match ← types.get name with
  | none | some .null => .ok all
  | some group => (← group.entries).foldlM (appendWidgets type) all

theorem widgetNames_eq (nodesInfo type : Value) : widgetNames nodesInfo type = (do
    NodeInfo.positionalGroups.foldlM (appendGroupWidgets type (← inputTypes nodesInfo type)) []) := rfl

section Groups

variable {groups : List (String × Value)} {names : String × Value → List String}

theorem appendGroupWidgets_eq {type : Value} {name : String} {inputs : List (String × Value)}
    (hgroup : HasGroup groups name inputs)
    (hinputs : ∀ input ∈ inputs, widgetsOf type input.1 input.2 = .ok (names input))
    (all : List String) :
    appendGroupWidgets type (.dict groups) all name = .ok (all ++ inputs.flatMap names) := by
  have hget : (Value.dict groups).get name = .ok (Value.lookup name groups) := rfl
  unfold appendGroupWidgets
  rw [hget, ok_bind]
  rcases hgroup with hsome | ⟨rfl, hnone | hnull⟩
  · rw [hsome]
    obtain ⟨b, hb, rfl⟩ := foldlM_ok (f := appendWidgets type)
      (fun done b => b = all ++ done.flatMap names) inputs (fun done input rest b hsplit hb => by
        refine ⟨b ++ names input, ?_, by simp [hb]⟩
        rw [appendWidgets, hinputs input (hsplit ▸ by simp), ok_bind]) (append_nil all).symm
    exact hb
  · rw [hnone]
    exact congrArg Except.ok (append_nil _).symm
  · rw [hnull]
    exact congrArg Except.ok (append_nil _).symm

theorem widgetNames_of_groups {nodesInfo : Value} {type : String}
    {required optional : List (String × Value)}
    (htypes : inputTypes nodesInfo (.str type) = .ok (.dict groups))
    (hrequired : HasGroup groups "required" required) (hoptional : HasGroup groups "optional" optional)
    (hnames : ∀ input ∈ required ++ optional,
      widgetsOf (.str type) input.1 input.2 = .ok (names input)) :
    widgetNames nodesInfo (.str type) = .ok ((required ++ optional).flatMap names) := by
  rw [widgetNames_eq, htypes, ok_bind, NodeInfo.positionalGroups, foldlM_cons,
    appendGroupWidgets_eq hrequired fun input hinput => hnames input (mem_append_left _ hinput),
    ok_bind, foldlM_cons,
    appendGroupWidgets_eq hoptional fun input hinput => hnames input (mem_append_right _ hinput),
    ok_bind, flatMap_append]
  rfl

end Groups

def pairsFor (input : String × Value) (s : Setting) : List (String × Value) :=
  (if isWidget input.2 then [(input.1, s.value)] else []) ++
    (if isSeed input then [("control_after_generate", s.control)] else []) ++
    (if uploads input.2 then [("upload", s.upload)] else [])

theorem length_namesFor (input : String × Value) (s : Setting) :
    (namesFor input).length = (storedFor input s).length := by
  unfold namesFor storedFor
  cases isWidget input.2 <;> cases isSeed input <;> cases uploads input.2 <;> rfl

theorem zip_namesFor (input : String × Value) (s : Setting) :
    (namesFor input).zip (storedFor input s) = pairsFor input s := by
  unfold namesFor storedFor pairsFor
  cases isWidget input.2 <;> cases isSeed input <;> cases uploads input.2 <;> rfl

theorem mem_pairsFor {s : Setting} {name : String} {v : Value} (hcontrol : name ≠ "control_after_generate")
    (hupload : name ≠ "upload") :
    (name, v) ∈ pairsFor input s ↔ isWidget input.2 = true ∧ name = input.1 ∧ v = s.value := by
  simp [pairsFor, hcontrol, hupload]

theorem zip_flatMap (inputs : List (String × Value)) (settings : String → Setting) :
    (inputs.flatMap namesFor).zip (inputs.flatMap fun input => storedFor input (settings input.1)) =
      inputs.flatMap fun input => pairsFor input (settings input.1) := by
  induction inputs with
  | nil => rfl
  | cons input rest ih =>
    rw [flatMap_cons, flatMap_cons, flatMap_cons,
      zip_append (length_namesFor input _), zip_namesFor, ih]

theorem lookup_zipValues {inputs : List (String × Value)} (hnodup : (inputs.map Prod.fst).Nodup)
    (hnames : ∀ input ∈ inputs, input.1 ≠ "control_after_generate" ∧ input.1 ≠ "upload")
    (settings : String → Setting) (hinput : input ∈ inputs) :
    Value.lookup input.1 (zipValues (inputs.flatMap namesFor)
      (inputs.flatMap fun input => storedFor input (settings input.1))) =
        if isWidget input.2 then some (settings input.1).value else none := by
  have hmerge : zipValues (inputs.flatMap namesFor)
      (inputs.flatMap fun input => storedFor input (settings input.1)) =
        Value.merge [] (inputs.flatMap fun input => pairsFor input (settings input.1)) := by
    rw [← zip_flatMap]
    rfl
  obtain ⟨hcontrol, hupload⟩ := hnames input hinput
  -- no other input has this name, and neither have the widgets without an input
  have hown {v : Value} (h : (input.1, v) ∈ inputs.flatMap fun input =>
      pairsFor input (settings input.1)) :
      isWidget input.2 = true ∧ v = (settings input.1).value := by
    obtain ⟨other, hother, hpair⟩ := mem_flatMap.mp h
    obtain ⟨hwidget, hname, rfl⟩ := (mem_pairsFor hcontrol hupload).mp hpair
    obtain rfl := inj_on_of_nodup_map hnodup hinput hother hname
    exact ⟨hwidget, rfl⟩
  rw [hmerge]
  split
  next hwidget =>
    have hpair := (mem_pairsFor (s := settings input.1) hcontrol hupload).mpr ⟨hwidget, rfl, rfl⟩
    exact Value.lookup_merge_of_forall (mem_flatMap.mpr ⟨input, hinput, hpair⟩)
      fun w hw => (hown hw).2
  next hnot =>
    refine Value.lookup_merge_of_not_mem fun hmem => hnot ?_
    obtain ⟨⟨name, v⟩, hpair, rfl⟩ := mem_map.mp hmem
    exact (hown hpair).1

theorem exists_widgetArguments {nodesInfo node type values : Value} {widgets : List (String × Value)}
    (hnode : node.field? "widgets_values" = some values)
    (hvalues : widgetValues nodesInfo type values = .ok widgets) :
    ∃ named, widgetArguments nodesInfo node type = .ok named ∧
      ∀ name, Table.find? name named = (Value.lookup name widgets).map Argument.widget := by
  refine ⟨_, ?_, fun name => find?_map_widget name widgets⟩
  simp only [widgetArguments, hnode, hvalues, ok_bind]

/-- The arguments that come of the widget values which the editor keeps for a node, in the order of
the declared inputs and for every setting of them: an input that is a widget has its own value, and
every other input has none. -/
theorem widgets_read_back {types info groups required optional : List (String × Value)} {type : String}
    (htype : type ∉ editorTypes) (hinfo : Value.lookup type types = some (.dict info))
    (hinput : Value.lookup "input" info = some (.dict groups))
    (hrequired : HasGroup groups "required" required) (hoptional : HasGroup groups "optional" optional)
    (hdeclared : ∀ input ∈ required ++ optional, IsDeclared input.2)
    (hnodup : ((required ++ optional).map Prod.fst).Nodup)
    (hnames : ∀ input ∈ required ++ optional,
      input.1 ≠ "control_after_generate" ∧ input.1 ≠ "upload")
    (settings : String → Setting) {node : Value}
    (hnode : node.field? "widgets_values" = some (.list ((required ++ optional).flatMap fun input =>
      storedFor input (settings input.1)))) :
    ∃ named arguments, widgetArguments (.dict types) node (.str type) = .ok named ∧
      positional (.dict types) (.str type) (fun name => Table.find? name named) .absent =
        .ok arguments ∧
      arguments = ((required ++ optional).map fun input =>
        if isWidget input.2 then .widget (settings input.1).value else .absent) ∧
      arguments.map Argument.text = ((required ++ optional).map fun input =>
        if isWidget input.2 then Literal.ofValue (settings input.1).value else "None") := by
  have htypes := inputTypes_of_listed htype hinfo hinput
  have hwidgets := widgetNames_of_groups htypes hrequired hoptional fun input hmem =>
    widgetsOf_eq htype (hdeclared input hmem)
  have hvalues : widgetValues (.dict types) (.str type) (.list ((required ++ optional).flatMap fun input =>
      storedFor input (settings input.1))) = .ok (zipValues ((required ++ optional).flatMap namesFor)
        ((required ++ optional).flatMap fun input => storedFor input (settings input.1))) := by
    simp only [widgetValues, hwidgets, ok_bind]
    rfl
  obtain ⟨named, hnamed, hfind⟩ := exists_widgetArguments hnode hvalues
  refine ⟨named, _, hnamed, positional_of_groups htypes hrequired hoptional _ _, ?_, ?_⟩
  · rw [List.map_map]
    refine List.map_congr_left fun input hmem => ?_
    rw [Function.comp_apply, hfind, lookup_zipValues hnodup hnames settings hmem]
    split <;> rfl
  · rw [List.map_map, List.map_map]
    refine List.map_congr_left fun input hmem => ?_
    rw [Function.comp_apply, Function.comp_apply, hfind, lookup_zipValues hnodup hnames settings hmem]
    split <;> rfl

def samplerInputs : List (String × Value) :=
  [("seed", .list [.str "INT", .dict [("min", .int 0)]]), ("model", .list [.str "MODEL"]),
    ("image", .list [.list [.str "a.png", .str "b.png"], .dict [("image_upload", .bool true)]]),
    ("cfg", .list [.str "FLOAT", .dict [("default", .int 8)]])]

def samplerOptions : List (String × Value) :=
  [("mask", .list [.str "MASK"]), ("noise_seed", .list [.str "INT"]),
    ("note", .list [.str "STRING", .dict []])]

def samplerTypes : List (String × Value) :=
  [("Sampler", .dict [("input", .dict [("required", .dict samplerInputs),
    ("optional", .dict samplerOptions)])])]

/-- Five of the seven inputs are widgets, and eight values are kept for them. -/
theorem widgets_read_back_sampler :
    ∃ named arguments, widgetArguments (.dict samplerTypes)
      (.record [("widgets_values", .list [.int 7, .str "randomize", .str "b.png", .str "image", .int 5,
        .int 9, .str "fixed", .str "image"])]) (.str "Sampler") = .ok named ∧
      positional (.dict samplerTypes) (.str "Sampler") (fun name => Table.find? name named) .absent =
        .ok arguments ∧
      arguments = [.widget (.int 7), .absent, .widget (.str "b.png"), .widget (.int 5), .absent,
        .widget (.int 9), .widget (.str "image")] ∧
      arguments.map Argument.text = ["7", "None", "'b.png'", "5", "None", "9", "'image'"] :=
  @widgets_read_back samplerTypes _ _ samplerInputs samplerOptions "Sampler" (by decide) rfl rfl
    (.inl rfl) (.inl rfl)
    (by simp [samplerInputs, samplerOptions, IsDeclared, IsType, Lists]) (by decide) (by decide)
    (fun name => if name = "seed" then ⟨.int 7, .str "randomize", .null⟩
      else if name = "image" then ⟨.str "b.png", .null, .str "image"⟩
      else if name = "cfg" then ⟨.int 5, .null, .null⟩
      else if name = "noise_seed" then ⟨.int 9, .str "fixed", .null⟩ else ⟨.str "image", .null, .null⟩)
    _ rfl

end Workflow

end Flowscript
