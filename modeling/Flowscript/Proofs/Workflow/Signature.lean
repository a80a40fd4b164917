import Flowscript.Workflow.OfPrompt
import Flowscript.Proofs.Workflow.Survival

/-!
# Signatures of node types

The description of a node type says which inputs it declares and which outputs it has. A signature
is that alone; the document of a prompt and the arguments of a call are both made from it.
-/

namespace Flowscript.Workflow

open List

structure Signature where
  required : List (String × Value)
  optional : List (String × Value)
  outputs : List (String × Value)

def Signature.names (s : Signature) : List String := (s.required ++ s.optional).map Prod.fst

def Signature.declared (s : Signature) : List (String × Value) :=
  Value.merge (Value.merge [] s.required) s.optional

/-- A group of inputs; one that is missing or null has none. -/
def HasGroup (groups : List (String × Value)) (name : String) (entries : List (String × Value)) :
    Prop :=
  Value.lookup name groups = some (.dict entries) ∨
    entries = [] ∧ (Value.lookup name groups = none ∨ Value.lookup name groups = some .null)

def Lists (v : Value) (items : List Value) : Prop := v = .list items ∨ v = .tuple items

def IsType : Value → Prop
  | .str _ | .list _ | .tuple _ => True
  | _ => False

def Describes (nodesInfo : Value) (type : String) (s : Signature) : Prop :=
  ∃ types info groups outputs names nameItems, nodesInfo = .dict types ∧
    Value.lookup type types = some (.dict info) ∧
    Value.lookup "input" info = some (.dict groups) ∧
    HasGroup groups "required" s.required ∧ HasGroup groups "optional" s.optional ∧
    Value.lookup "output" info = some outputs ∧ Lists outputs (s.outputs.map Prod.snd) ∧
    Value.lookup "output_name" info = some names ∧ Lists names nameItems ∧
    s.outputs.map (fun o => Value.str o.1) <+: nameItems ∧ ∀ o ∈ s.outputs, IsType o.2

def editorTypes : List String := rerouteTypes ++ ["PrimitiveNode", "Note"]

theorem not_mem_editorTypes_of_isOrdinary {type : String} (h : IsOrdinary type) :
    type ∉ editorTypes :=
  fun hmem => h (mem_append_left _ (mem_append_left _ hmem))

section Groups

variable {groups entries : List (String × Value)} {name : String}

theorem addGroup_eq (h : HasGroup groups name entries) {info : Value}
    (hinfo : info.entry "input" = .ok (.dict groups)) (all : List (String × Value)) :
    addGroup info all name = .ok (Value.merge all entries) := by
  have hget : (Value.dict groups).get name = .ok (Value.lookup name groups) := rfl
  unfold addGroup
  rw [hinfo, ok_bind, hget, ok_bind]
  rcases h with h | ⟨rfl, h | h⟩
  · rw [h]
    cases entries <;> rfl
  · rw [h]
    rfl
  · rw [h]
    rfl

theorem declaredInputs_eq {info : Value} {required optional : List (String × Value)}
    (hinfo : info.entry "input" = .ok (.dict groups)) (hrequired : HasGroup groups "required" required)
    (hoptional : HasGroup groups "optional" optional) :
    declaredInputs info = .ok (Value.merge (Value.merge [] required) optional) := by
  unfold declaredInputs NodeInfo.positionalGroups
  rw [foldlM_cons, addGroup_eq hrequired hinfo, ok_bind, foldlM_cons,
    addGroup_eq hoptional hinfo, ok_bind]
  rfl

theorem appendGroup_eq {α : Type} (arg : String → Option α) (absent : α)
    (h : HasGroup groups name entries) (all : List α) :
    appendGroup arg absent (.dict groups) all name =
      .ok (all ++ entries.map fun entry => (arg entry.1).getD absent) := by
  have hget : (Value.dict groups).get name = .ok (Value.lookup name groups) := rfl
  have hentries : ∀ (entries : List (String × Value)) (all : List α),
      (entries.map fun entry => Value.str entry.1).foldlM (appendInput arg absent) all =
        .ok (all ++ entries.map fun entry => (arg entry.1).getD absent) := by
    intro entries
    induction entries with
    | nil => exact fun all => by simp; rfl
    | cons entry rest ih =>
      intro all
      have hstep : appendInput arg absent all (.str entry.1) =
        .ok (all ++ [(arg entry.1).getD absent]) := rfl
      rw [map_cons, foldlM_cons, hstep, ok_bind, ih, append_assoc]
      rfl
  unfold appendGroup
  rw [hget, ok_bind]
  rcases h with h | ⟨rfl, h | h⟩
  · rw [h]
    exact hentries entries all
  · rw [h]
    simp
  · rw [h]
    simp

end Groups

section Description

variable {nodesInfo : Value} {type : String} {s : Signature}

section Outputs

theorem Lists.item {v : Value} {items : List Value} (h : Lists v items) {i : Nat} {w : Value}
    (hi : items[i]? = some w) : v.item (.int i) = .ok w := by
  rcases h with rfl | rfl
  · exact Value.item_list_int hi
  · exact Value.item_list_int hi

theorem Lists.length {v : Value} {items : List Value} (h : Lists v items) :
    v.length = .ok items.length := by
  rcases h with rfl | rfl <;> rfl

variable {info outputs names : Value} {types nameItems : List Value}
  (houtputs : info.entry "output" = .ok outputs) (hlists : Lists outputs types)
  (hnames : info.entry "output_name" = .ok names) (hnameLists : Lists names nameItems)

include houtputs hlists hnames hnameLists

theorem draftOutput_eq {i : Nat} {type name : Value} (htype : types[i]? = some type)
    (hname : nameItems[i]? = some name) : draftOutput info i = .ok ⟨name, type, []⟩ := by
  unfold draftOutput
  rw [hnames, ok_bind, hnameLists.item hname, ok_bind, houtputs, ok_bind, hlists.item htype, ok_bind]

theorem draftOutputs_eq (hlength : types.length ≤ nameItems.length) : draftOutputs info =
    .ok (types.zipWith (fun type name => ⟨name, type, []⟩) nameItems) := by
  let drafts : List DraftOutput := types.zipWith (fun type name => ⟨name, type, []⟩) nameItems
  have hdrafts : drafts.length = types.length := by simp [drafts, hlength]
  have hdraft : ∀ i ∈ List.range types.length,
      draftOutput info i = .ok ((drafts[i]?).getD ⟨.null, .null, []⟩) := by
    intro i hi
    have hi := mem_range.mp hi
    obtain ⟨type, htype⟩ : ∃ type, types[i]? = some type := ⟨_, getElem?_eq_getElem hi⟩
    obtain ⟨name, hname⟩ : ∃ name, nameItems[i]? = some name :=
      ⟨_, getElem?_eq_getElem (Nat.lt_of_lt_of_le hi hlength)⟩
    rw [draftOutput_eq houtputs hlists hnames hnameLists htype hname]
    simp [drafts, getElem?_zipWith, htype, hname]
  unfold draftOutputs
  rw [houtputs, ok_bind, hlists.length, ok_bind, mapM_eq_map hdraft]
  refine congrArg Except.ok (ext_getElem? fun i => ?_)
  change _ = drafts[i]?
  rw [← hdrafts]
  by_cases hi : i < drafts.length
  · simp [hi]
  · simp [hi]

end Outputs

theorem draft_of_describes (h : Describes nodesInfo type s) :
    ∃ info, nodesInfo.item (.str type) = .ok info ∧ declaredInputs info = .ok s.declared ∧
      draftOutputs info = .ok (s.outputs.map fun o => ⟨.str o.1, o.2, []⟩) := by
  obtain ⟨types, info, groups, outputs, names, nameItems, rfl, hinfo, hinput, hrequired, hoptional,
    houtput, hlists, hname, hnameLists, ⟨extra, rfl⟩, -⟩ := h
  have houtputs : (s.outputs.map Prod.snd).zipWith
      (fun type name => (⟨name, type, []⟩ : DraftOutput))
        (s.outputs.map (fun o => .str o.1) ++ extra) = s.outputs.map fun o => ⟨.str o.1, o.2, []⟩ := by
    induction s.outputs with
    | nil => rfl
    | cons o rest ih => exact congrArg _ ih
  refine ⟨.dict info, Value.item_dict_str hinfo,
    declaredInputs_eq (Value.item_dict_str hinput) hrequired hoptional, ?_⟩
  rw [draftOutputs_eq (Value.item_dict_str houtput) hlists (Value.item_dict_str hname) hnameLists
    (by simp), houtputs]

theorem inputTypes_of_listed {types info groups : List (String × Value)} (htype : type ∉ editorTypes)
    (hinfo : Value.lookup type types = some (.dict info))
    (hinput : Value.lookup "input" info = some (.dict groups)) :
    inputTypes (.dict types) (.str type) = .ok (.dict groups) := by
  simp only [editorTypes, mem_append, mem_cons, not_mem_nil, or_false, not_or] at htype
  obtain ⟨hreroute, hliteral, hnote⟩ := htype
  have hlisted : isListed (.dict types) (.str type) = .ok true := by
    simp [isListed, Value.hashable, Value.text?, Value.hasKey, hinfo]
  have hitem : (Value.dict types).item (.str type) = .ok (.dict info) := Value.item_dict_str hinfo
  have hentry : (Value.dict info).entry "input" = .ok (.dict groups) := Value.item_dict_str hinput
  unfold inputTypes
  simp [typeIn_str, hreroute, hliteral, hnote, hlisted, hitem, hentry, ok_bind]

theorem positional_of_groups {groups required optional : List (String × Value)}
    (htypes : inputTypes nodesInfo (.str type) = .ok (.dict groups))
    (hrequired : HasGroup groups "required" required)
    (hoptional : HasGroup groups "optional" optional) {α : Type} (arg : String → Option α)
    (absent : α) :
    positional nodesInfo (.str type) arg absent =
      .ok (((required ++ optional).map Prod.fst).map fun name => (arg name).getD absent) := by
  unfold positional NodeInfo.positionalGroups
  rw [htypes, ok_bind, foldlM_cons, appendGroup_eq arg absent hrequired, ok_bind,
    foldlM_cons, appendGroup_eq arg absent hoptional, ok_bind]
  simp
  rfl

theorem positional_of_describes (h : Describes nodesInfo type s) (hordinary : IsOrdinary type)
    {α : Type} (arg : String → Option α) (absent : α) :
    positional nodesInfo (.str type) arg absent =
      .ok (s.names.map fun name => (arg name).getD absent) := by
  obtain ⟨types, info, groups, -, -, -, rfl, hinfo, hinput, hrequired, hoptional, -⟩ := h
  exact positional_of_groups
    (inputTypes_of_listed (not_mem_editorTypes_of_isOrdinary hordinary) hinfo hinput) hrequired
    hoptional arg absent

end Description

end Flowscript.Workflow
