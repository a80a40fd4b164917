import Flowscript.Workflow.Emission
import Flowscript.Proofs.Workflow.Graph

/-!
# Nodes that are switched off

A switch lists the ways in which a node has no effect: in each way certain widgets have certain
values, all of them together. The pass that drops such nodes looks at the listed values one by one,
and a single one of them is enough for it. The two agree where every way lists one value only. One
node type has a way with two: it is dropped with half of that way, although the node has an effect
then.
-/

namespace Flowscript.Workflow

open List

variable {way : List (String × Value)}

/-- A widget has the value that is listed for it; what comes by a link has none. -/
def Shows (arguments : List (String × Argument)) (entry : String × Value) : Prop :=
  ∃ v, Table.find? entry.1 arguments = some (.widget v) ∧ (v == entry.2) = true

namespace Switch

def Fits (s : Switch) (arguments : List (String × Argument)) : Prop :=
  ∀ way ∈ s.ways, ∀ entry ∈ way, (Table.find? entry.1 arguments).isSome

def Touched (s : Switch) (arguments : List (String × Argument)) : Prop :=
  ∃ way ∈ s.ways, ∃ entry ∈ way, Shows arguments entry

/-- In one of the ways all widgets have the values that are listed for them. -/
def MeantOff (s : Switch) (arguments : List (String × Argument)) : Prop :=
  ∃ way ∈ s.ways, ∀ entry ∈ way, Shows arguments entry

/-- Some widget has its value, but in no way all of them do. -/
def HalfOff (s : Switch) (arguments : List (String × Argument)) : Prop :=
  s.Touched arguments ∧ ¬ s.MeantOff arguments

end Switch

variable {arguments : List (String × Argument)} {s : Switch}

theorem value_beq_iff {a : Argument} {v : Value} (hv : (Value.null == v) = false) :
    (a.value == v) = true ↔ ∃ w, a = .widget w ∧ (w == v) = true := by
  cases a with
  | widget w => simp [Argument.value]
  | _ => simp [Argument.value, hv]

theorem hasAny_subjectOf (type : Value) (chosen : Bool) {entries : List (String × Value)}
    (hnull : ∀ entry ∈ entries, (Value.null == entry.2) = false)
    (hfits : ∀ entry ∈ entries, (Table.find? entry.1 arguments).isSome) :
    ∃ off, hasAny (subjectOf type arguments chosen).widget entries = .ok off ∧
      (off = true ↔ ∃ entry ∈ entries, Shows arguments entry) := by
  induction entries with
  | nil => exact ⟨false, rfl, by simp⟩
  | cons entry rest ih =>
    obtain ⟨name, value⟩ := entry
    obtain ⟨a, ha⟩ := Option.isSome_iff_exists.mp (hfits (name, value) mem_cons_self)
    have hwidget : (subjectOf type arguments chosen).widget name = .ok a.value := by
      simp only [subjectOf, ha]
    have hshows : (a.value == value) = true ↔ Shows arguments (name, value) := by
      rw [value_beq_iff (hnull (name, value) mem_cons_self)]
      simp [Shows, ha]
    rw [hasAny, hwidget, ok_bind]
    by_cases hvalue : (a.value == value) = true
    · exact ⟨true, if_pos hvalue, by simp [hshows.mp hvalue]⟩
    · obtain ⟨off, hoff, hiff⟩ := ih (fun entry hentry => hnull entry (mem_cons_of_mem _ hentry))
        fun entry hentry => hfits entry (mem_cons_of_mem _ hentry)
      rw [hshows] at hvalue
      exact ⟨off, by rw [if_neg fun h => hvalue (hshows.mp h), hoff], by simp [hiff, hvalue]⟩

theorem nodup_switches : (switches.map Switch.nodeType).Nodup := by decide

theorem null_beq_of_mem_ways (hs : s ∈ switches) (hway : way ∈ s.ways) {entry : String × Value}
    (hentry : entry ∈ way) : (Value.null == entry.2) = false := by
  have hall : (switches.all fun s => s.ways.all fun way => way.all fun entry =>
    !(Value.null == entry.2)) = true := by decide
  simpa using all_eq_true.mp (all_eq_true.mp (all_eq_true.mp hall s hs) way hway) entry hentry

theorem ne_nil_of_mem_ways (hs : s ∈ switches) (hway : way ∈ s.ways) :
    way ≠ [] := by
  have hall : (switches.all fun s => s.ways.all fun way => !way.isEmpty) = true := by decide
  simpa using all_eq_true.mp (all_eq_true.mp hall s hs) way hway

theorem length_of_mem_ways (hs : s ∈ switches) (hother : s.nodeType ≠ "CR Load LoRA") (hway : way ∈ s.ways) :
    way.length = 1 := by
  have hall : (switches.all fun s => s.nodeType == "CR Load LoRA" ||
    s.ways.all fun way => way.length == 1) = true := by decide
  have hlengths : (s.ways.all fun way => way.length == 1) = true := by
    simpa [hother] using all_eq_true.mp hall s hs
  simpa using all_eq_true.mp hlengths way hway

theorem ways_of_nodeType (hs : s ∈ switches) (htype : s.nodeType = "CR Load LoRA") : s.ways =
    [[("switch", .str "Off")], [("strength_model", .int 0), ("strength_clip", .int 0)]] := by
  have hfind : switches.find? (fun s => s.nodeType == "CR Load LoRA") = some s :=
    find?_eq_some_of_key nodup_switches hs (beq_iff_eq.mpr htype)
      fun other _ hother => (beq_iff_eq.mp hother).trans htype.symm
  exact (Option.some.inj hfind) ▸ rfl

namespace Switch

theorem MeantOff.touched (hs : s ∈ switches) (h : s.MeantOff arguments) : s.Touched arguments := by
  obtain ⟨way, hway, hall⟩ := h
  obtain ⟨entry, hentry⟩ := exists_mem_of_ne_nil way (ne_nil_of_mem_ways hs hway)
  exact ⟨way, hway, entry, hentry, hall entry hentry⟩

theorem Touched.meantOff (hlengths : ∀ way ∈ s.ways, way.length = 1) (h : s.Touched arguments) :
    s.MeantOff arguments := by
  obtain ⟨way, hway, entry, hentry, hshows⟩ := h
  obtain ⟨only, rfl⟩ := length_eq_one_iff.mp (hlengths way hway)
  refine ⟨[only], hway, fun other hother => ?_⟩
  rw [mem_singleton.mp hother, ← mem_singleton.mp hentry]
  exact hshows

theorem halfOff_iff (hs : s ∈ switches) : s.HalfOff arguments ↔ s.nodeType = "CR Load LoRA" ∧
    ¬ Shows arguments ("switch", .str "Off") ∧
    ¬ (Shows arguments ("strength_model", .int 0) ↔ Shows arguments ("strength_clip", .int 0)) := by
  by_cases htype : s.nodeType = "CR Load LoRA"
  · have hways := ways_of_nodeType hs htype
    have htouched : s.Touched arguments ↔ Shows arguments ("switch", .str "Off") ∨
        Shows arguments ("strength_model", .int 0) ∨ Shows arguments ("strength_clip", .int 0) := by
      simp only [Touched, hways, exists_mem_cons_iff, not_mem_nil, false_and, exists_false,
        or_false]
    have hmeant : s.MeantOff arguments ↔ Shows arguments ("switch", .str "Off") ∨
        Shows arguments ("strength_model", .int 0) ∧ Shows arguments ("strength_clip", .int 0) := by
      simp only [MeantOff, hways, exists_mem_cons_iff, forall_mem_cons, not_mem_nil,
        false_and, exists_false, or_false, false_imp_iff, implies_true, and_true]
    rw [HalfOff, htouched, hmeant]
    by_cases hmodel : Shows arguments ("strength_model", .int 0) <;>
      by_cases hclip : Shows arguments ("strength_clip", .int 0) <;> simp [htype, hmodel, hclip]
  · have hmeant : s.Touched arguments → s.MeantOff arguments :=
      Touched.meantOff fun way hway => length_of_mem_ways hs htype hway
    exact ⟨fun h => absurd (hmeant h.1) h.2, fun h => absurd h.1 htype⟩

end Switch

theorem dropSwitchedOff_subjectOf (hs : s ∈ switches) (hfits : s.Fits arguments) (chosen : Bool)
    (statement : String) : ∃ off : Bool,
      dropSwitchedOff (subjectOf (.str s.nodeType) arguments chosen) statement =
        .ok (if off then "" else statement) ∧ (off = true ↔ s.Touched arguments) := by
  have hfind : (switches.find? fun other =>
      (subjectOf (.str s.nodeType) arguments chosen).type == .str other.nodeType) = some s := by
    refine find?_eq_some_of_key nodup_switches hs ?_ fun other _ hother => ?_
    · exact (Value.str_beq_str _ _).trans (beq_self_eq_true _)
    · exact (beq_iff_eq.mp ((Value.str_beq_str _ _).symm.trans hother)).symm
  have hhashable : (subjectOf (.str s.nodeType) arguments chosen).type.hashable = true := rfl
  have hnull : ∀ entry ∈ s.ways.flatten, (Value.null == entry.2) = false := by
    intro entry hentry
    obtain ⟨way, hway, hentry⟩ := mem_flatten.mp hentry
    exact null_beq_of_mem_ways hs hway hentry
  have hthere : ∀ entry ∈ s.ways.flatten, (Table.find? entry.1 arguments).isSome := by
    intro entry hentry
    obtain ⟨way, hway, hentry⟩ := mem_flatten.mp hentry
    exact hfits way hway entry hentry
  obtain ⟨off, hoff, hiff⟩ := hasAny_subjectOf (.str s.nodeType) chosen hnull hthere
  refine ⟨off, ?_, hiff.trans ?_⟩
  · unfold dropSwitchedOff
    rw [hhashable, hfind]
    simp only [Bool.not_true, Bool.false_eq_true, if_false, Switch.isOff, hoff, ok_bind]
  · simp only [Switch.Touched, mem_flatten]
    constructor
    · rintro ⟨entry, ⟨way, hway, hentry⟩, hshows⟩
      exact ⟨way, hway, entry, hentry, hshows⟩
    · rintro ⟨way, hway, entry, hentry, hshows⟩
      exact ⟨entry, ⟨way, hway, hentry⟩, hshows⟩

/-- What the pass does to a node with a switch, given that all listed widgets are there: it drops the
statement or leaves it as it is. It drops every node that is off as the switch means it. It drops no
other exactly if the node is not half off, and that can be only if one of two strengths is zero and
the other one is not. -/
theorem dropSwitchedOff_meant_iff (hs : s ∈ switches) (hfits : s.Fits arguments) (chosen : Bool)
    {statement : String} (hne : statement ≠ "") :
    ∃ line, dropSwitchedOff (subjectOf (.str s.nodeType) arguments chosen) statement = .ok line ∧
      (line = "" ∨ line = statement) ∧ (s.MeantOff arguments → line = "") ∧
      ((line = "" ↔ s.MeantOff arguments) ↔ ¬ s.HalfOff arguments) ∧
      (s.HalfOff arguments ↔ s.nodeType = "CR Load LoRA" ∧
        ¬ Shows arguments ("switch", .str "Off") ∧
        ¬ (Shows arguments ("strength_model", .int 0) ↔ Shows arguments ("strength_clip", .int 0))) := by
  obtain ⟨off, hdrop, hoff⟩ := dropSwitchedOff_subjectOf hs hfits chosen statement
  have hempty : (if off then "" else statement) = "" ↔ s.Touched arguments := by
    rw [← hoff]
    cases off <;> simp [hne]
  have htouched : s.MeantOff arguments → s.Touched arguments := fun h => h.touched hs
  refine ⟨_, hdrop, ?_, fun h => hempty.mpr (htouched h), ?_, Switch.halfOff_iff hs⟩
  · cases off <;> simp
  · rw [hempty, Switch.HalfOff]
    tauto

def clipOnly : List (String × Argument) := [
  ("model", .held "model" (.str "MODEL") true), ("clip", .held "clip" (.str "CLIP") true),
  ("switch", .widget (.str "On")), ("lora_name", .widget (.str "style.safetensors")),
  ("strength_model", .widget (.int 0)), ("strength_clip", .widget (.int 1))]

def loraSwitch : Switch where
  nodeType := "CR Load LoRA"
  ways := [[("switch", .str "Off")], [("strength_model", .int 0), ("strength_clip", .int 0)]]

def clipOnlyStatement : String :=
  "model, clip, _ = CRLoadLoRA(model, clip, 'On', 'style.safetensors', 0, 1)\n"

/-- The node is not off, but dropped. -/
theorem dropSwitchedOff_meant_iff_clipOnly : loraSwitch ∈ switches ∧ loraSwitch.Fits clipOnly ∧
    loraSwitch.HalfOff clipOnly ∧ ¬ loraSwitch.MeantOff clipOnly ∧
    dropSwitchedOff (subjectOf (.str loraSwitch.nodeType) clipOnly false) clipOnlyStatement =
      .ok "" := by
  have hs : loraSwitch ∈ switches := by simp [switches, loraSwitch]
  have hfits : loraSwitch.Fits clipOnly := by
    simp only [Switch.Fits, loraSwitch, List.forall_mem_cons, List.not_mem_nil, false_imp_iff,
      implies_true, and_true]
    exact ⟨rfl, rfl, rfl⟩
  have hne : clipOnlyStatement ≠ "" := by decide
  obtain ⟨line, hdrop, -, -, hmeant, hhalf⟩ := dropSwitchedOff_meant_iff hs hfits false hne
  have hshown {name : String} {v w : Value} (hfind : Table.find? name clipOnly = some (.widget v)) :
      Shows clipOnly (name, w) ↔ (v == w) = true := by
    simp [Shows, hfind]
  have hoff : loraSwitch.HalfOff clipOnly := by
    rw [hhalf, hshown rfl, hshown rfl, hshown rfl]
    decide
  refine ⟨hs, hfits, hoff, hoff.2, ?_⟩
  have hline : line = "" := by
    have hnot := mt hmeant.mp (not_not_intro hoff)
    by_contra hne
    exact hnot ⟨fun h => absurd h hne, fun h => absurd h hoff.2⟩
  rw [hdrop, hline]

end Flowscript.Workflow
