import Flowscript.Workflow.Document
import Flowscript.Proofs.Workflow.Drafting
import Flowscript.Proofs.Workflow.Graph

/-!
# Variables that are set before they are read

The variable of an output is chosen when the node is reached, before the passes decide whether its
statement stays. Every variable that a statement reads is one that an earlier node has chosen; it
may still be missing from the script, and this module says exactly when.
-/

namespace Flowscript.Workflow

open List Option

namespace Contribution

def isActive (c : Contribution) : Bool :=
  c.line != "" && c.statement.any fun s => !s.commented

def sets (c : Contribution) : List String := (c.statement.map Statement.targets).getD []

/-- The node comes after others: it is given variables that they chose, and takes these or ones
that none of them chose. -/
structure Succeeds (c : Contribution) (earlier : List Contribution) : Prop where
  inputs : ∀ x ∈ c.inputs, ∃ e ∈ earlier, x ∈ e.targets.names
  names : ∀ x ∈ c.targets.names,
    x = "_" ∨ x ∈ c.inputs ∨ ∀ e ∈ earlier, x ∈ e.targets.names → x = "_"
  targets : ∀ s, c.statement = some s → s.targets = c.targets.names
  reads : ∀ x ∈ c.reads, x ∈ c.inputs
  written : c.IsWritten

theorem Succeeds.sets_eq {c : Contribution} {earlier : List Contribution} (h : c.Succeeds earlier)
    (hc : c.isActive = true) : c.sets = c.targets.names := by
  unfold isActive at hc
  cases hs : c.statement with
  | none => simp [hs] at hc
  | some s => rw [sets, hs, map_some, getD_some, h.targets s hs]

theorem Succeeds.mem_of_mem_sets {c : Contribution} {earlier : List Contribution}
    (h : c.Succeeds earlier) {x : String} (hx : x ∈ c.sets) : x ∈ c.targets.names := by
  unfold sets at hx
  cases hs : c.statement with
  | none => simp [hs] at hx
  | some s => rwa [hs, map_some, getD_some, h.targets s hs] at hx

end Contribution

/-- Every variable that a statement reads is set by one before it. -/
def Closed (cs : List Contribution) : Prop :=
  ∀ earlier c later, cs = earlier ++ c :: later → c.isActive = true →
    ∀ x ∈ c.reads, x ≠ "_" → ∃ e ∈ earlier, e.isActive = true ∧ x ∈ e.sets

/-- If a statement is left out whose node chose a variable that it was not given, then that
variable is set between there and every statement that reads it. -/
def Restored (cs : List Contribution) : Prop :=
  ∀ earlier c between e later, cs = earlier ++ c :: between ++ e :: later →
    c.isActive = false → e.isActive = true →
    ∀ x ∈ c.targets.names, x ∉ c.inputs → x ≠ "_" → x ∈ e.reads →
      ∃ b ∈ between, b.isActive = true ∧ x ∈ b.sets

/-- What a draft knows of the contributions so far. -/
structure Ledger (earlier : List Contribution) (d : Draft) : Prop where
  records : ∀ x, d.graph.Records x → ∃ e ∈ earlier, x ∈ e.targets.names
  names : ∀ e ∈ earlier, ∀ x ∈ e.targets.names, x = "_" ∨ x ∈ d.names

namespace Ledger

variable {earlier : List Contribution} {d d' : Draft} {c : Contribution}

theorem succeeds (h : Ledger earlier d) (hc : c.Continues d d') : c.Succeeds earlier where
  inputs x hx := h.records x (hc.inputs x hx)
  names x hx := (hc.names x hx).imp_right fun hx => hx.imp_right fun ⟨hnot, _⟩ e he hxe =>
    (h.names e he x hxe).resolve_right hnot
  targets := hc.targets
  reads := hc.reads
  written := hc.written

theorem append (h : Ledger earlier d) (hc : c.Continues d d') : Ledger (earlier ++ [c]) d' where
  records x hx := by
    rcases hc.grows.records x hx with hold | hnew
    · obtain ⟨e, he, hxe⟩ := h.records x hold
      exact ⟨e, mem_append_left _ he, hxe⟩
    · exact ⟨c, by simp, hnew⟩
  names e he x hx := by
    rcases mem_append.mp he with hold | hnew
    · exact (h.names e hold x hx).imp_right (hc.grows.names x)
    · obtain rfl := mem_singleton.mp hnew
      rcases hc.names x hx with hblank | hgiven | ⟨-, hin⟩
      · exact .inl hblank
      · obtain ⟨e', he', hxe'⟩ := h.records x (hc.inputs x hgiven)
        exact (h.names e' he' x hxe').imp_right (hc.grows.names x)
      · exact .inr hin

theorem emitAll {nodesInfo : Value} {ids : List Value} {cs : List Contribution} (h : Ledger earlier d)
    (hrun : (Transpiler.emitAll nodesInfo ids).run d = (.ok cs, d')) : Ledger (earlier ++ cs) d' :=
  of_run_emitAll Ledger (fun h hemit => h.append (continues_emit hemit)) earlier h hrun

end Ledger

theorem succeeds_emitAll {nodesInfo : Value} {ids : List Value} {earlier cs : List Contribution}
    {d d' : Draft} (hl : Ledger earlier d)
    (h : (Transpiler.emitAll nodesInfo ids).run d = (.ok cs, d')) {before later : List Contribution}
    {c : Contribution} (hcs : cs = before ++ c :: later) : c.Succeeds (earlier ++ before) := by
  obtain ⟨_, _, _, d₁, d₂, -, hbefore, hemit, -⟩ := of_run_emitAll_split h hcs
  exact (hl.emitAll hbefore).succeeds (continues_emit hemit)

section Closed

variable {cs : List Contribution}
  (h : ∀ earlier c later, cs = earlier ++ c :: later → c.Succeeds earlier)
include h

/-- Going back from a node that chose a variable, there is one whose statement sets it, or the
variable came with a statement that was left out. -/
theorem exists_set_of_restored (hr : Restored cs) (earlier : List Contribution) (c : Contribution)
    (between : List Contribution) {e : Contribution} {later : List Contribution} {x : String}
    (hcs : cs = earlier ++ c :: between ++ e :: later) (he : e.isActive = true)
    (hread : x ∈ e.reads) (hx : x ∈ c.targets.names) (hne : x ≠ "_") :
    ∃ b ∈ earlier ++ c :: between, b.isActive = true ∧ x ∈ b.sets := by
  have hc : c.Succeeds earlier := h earlier c (between ++ e :: later) (by simpa using hcs)
  by_cases hactive : c.isActive = true
  · exact ⟨c, by simp, hactive, hc.sets_eq hactive ▸ hx⟩
  by_cases hgiven : x ∈ c.inputs
  · obtain ⟨e', he', hxe'⟩ := hc.inputs x hgiven
    obtain ⟨front, back, hsplit⟩ := append_of_mem he'
    have hshorter : front.length < earlier.length := by simp [hsplit]
    obtain ⟨b, hb, hset⟩ := exists_set_of_restored hr front e' (back ++ c :: between)
      (by simpa [hsplit] using hcs) he hread hxe' hne
    exact ⟨b, by simpa [hsplit] using hb, hset⟩
  · obtain ⟨b, hb, hset⟩ := hr earlier c between e later hcs (by simpa using hactive) he x hx
      hgiven hne hread
    exact ⟨b, by simp [hb], hset⟩
termination_by earlier.length

theorem closed_of_restored (hr : Restored cs) : Closed cs := by
  intro earlier e later hcs he x hread hne
  have hgiven := (h earlier e later hcs).reads x hread
  obtain ⟨c, hc, hx⟩ := (h earlier e later hcs).inputs x hgiven
  obtain ⟨front, back, rfl⟩ := append_of_mem hc
  exact exists_set_of_restored h hr front c back hcs he hread hx hne

theorem restored_of_closed (hclosed : Closed cs) : Restored cs := by
  intro earlier c between e later hcs hc he x hx hgiven hne hread
  obtain ⟨b, hb, hactive, hset⟩ := hclosed (earlier ++ c :: between) e later hcs he x hread hne
  have hnew : ∀ b ∈ earlier, x ∉ b.targets.names := by
    have hsucc := h earlier c (between ++ e :: later) (by simpa using hcs)
    have hfirst := ((hsucc.names x hx).resolve_left hne).resolve_left hgiven
    exact fun b hb hxb => hne (hfirst b hb hxb)
  rcases mem_append.mp hb with hold | hlater
  · obtain ⟨front, back, rfl⟩ := append_of_mem hold
    have hb' := h front b (back ++ c :: between ++ e :: later) (by simpa using hcs)
    exact absurd (hb'.mem_of_mem_sets hset) (hnew b hold)
  · rcases mem_cons.mp hlater with rfl | hmem
    · rw [hc] at hactive
      cases hactive
    · exact ⟨b, hmem, hactive, hset⟩

end Closed

namespace Graph

variable {g : Graph}

def IsFresh (g : Graph) : Prop := ∀ v ∈ g.vertices, v.outputIds = none

theorem isFresh_ofDocument {document : Value} (h : ofDocument document = .ok g) : g.IsFresh := by
  refine vertices_ofDocument (P := fun vertices => ∀ v ∈ vertices, v.outputIds = none)
    (fun v hv => absurd hv not_mem_nil) (fun g id _ hg v hv => ?_) (fun g id node hg v hv => ?_) h
  · rcases mem_append.mp hv with hold | hnew
    · exact hg v hold
    · rw [mem_singleton.mp hnew]
  · obtain ⟨v', hv', rfl⟩ := mem_map.mp hv
    have hnone := hg v' hv'
    split <;> exact hnone

end Graph

theorem Ledger.nil {g : Graph} (h : g.IsFresh) : Ledger [] ⟨g, []⟩ := by
  refine ⟨fun x hx => ?_, fun e he => absurd he not_mem_nil⟩
  obtain ⟨v, hv, ids, hids, -⟩ := hx
  rw [h v hv] at hids
  cases hids

theorem isFresh_openWorkflow {workflow nodesInfo : Value} {t : Transpiler}
    (h : (openWorkflow workflow nodesInfo).2 = .ok t) : t.graph.IsFresh := by
  unfold openWorkflow at h
  split at h
  · cases h
  · obtain ⟨g, hg, rfl⟩ := ok_of_map h
    exact Graph.isFresh_ofDocument hg

namespace Transpiler

def contributionsFor (t : Transpiler) (ends : Value) : Except Fault (List Contribution) := do
  let (_, ends) ← t.resolveEnds ends
  (t.contributions ends).2.1

theorem script_eq (t : Transpiler) (ends : Value) (standalone : Bool) :
    (t.script ends standalone).1.script = (t.contributionsFor ends).map (textOf standalone) := by
  unfold script contributionsFor
  cases t.resolveEnds ends <;> rfl

theorem ok_of_orFault {α : Type} {fault : Option Fault} {result : Except Fault α} {a : α}
    (h : orFault fault result = .ok a) : result = .ok a := by
  cases result with
  | error e => cases h
  | ok b => cases fault <;> cases h; rfl

theorem succeeds_contributions {t : Transpiler} {ends : Option Value} {cs : List Contribution}
    (ht : t.graph.IsFresh) (h : (t.contributions ends).2.1 = .ok cs)
    (earlier : List Contribution) (c : Contribution) (later : List Contribution)
    (hcs : cs = earlier ++ c :: later) : c.Succeeds earlier := by
  have hrun := ok_of_orFault h
  exact succeeds_emitAll (Ledger.nil ht) (Prod.ext hrun rfl) hcs

/-- A script is closed if and only if every variable that came with a statement left out is set
again before it is read. -/
theorem script_closed_iff_restored {workflow nodesInfo ends : Value} {standalone : Bool}
    {t : Transpiler} {text : String} (ht : (openWorkflow workflow nodesInfo).2 = .ok t)
    (h : (t.script ends standalone).1.script = .ok text) :
    ∃ cs, t.contributionsFor ends = .ok cs ∧ text = textOf standalone cs ∧
      (∀ c ∈ cs, c.IsWritten) ∧ (Closed cs ↔ Restored cs) := by
  rw [script_eq] at h
  obtain ⟨cs, hcs, rfl⟩ := ok_of_map h
  obtain ⟨⟨log, ends'⟩, -, hcontributions⟩ := ok_of_bind hcs
  have hsucceeds := succeeds_contributions (isFresh_openWorkflow ht) hcontributions
  refine ⟨cs, hcs, rfl, fun c hc => ?_, restored_of_closed hsucceeds, closed_of_restored hsucceeds⟩
  obtain ⟨earlier, later, hsplit⟩ := List.append_of_mem hc
  exact (hsucceeds earlier c later hsplit).written

def latentTypes : Value :=
  let latent : Value := .list [.str "LATENT"]
  let type (inputs : List (String × Value)) (outputs : Value) : Value :=
    .dict [("input", .dict [("required", .dict inputs)]), ("output", outputs),
      ("output_name", outputs)]
  .dict [("Empty", type [] latent),
    ("LatentMultiply", type [("samples", latent), ("multiplier", .list [.str "FLOAT"])] latent),
    ("Join", type [("a", latent), ("b", latent)] (.list []))]

/-- A workflow in which a latent goes both to a switch that is off and past it. -/
def sharedLatent : Value :=
  let input (name : String) (link : Int) : Value :=
    .dict [("name", .str name), ("type", .str "LATENT"), ("link", .int link)]
  let output (links : List Value) : Value :=
    .dict [("name", .str "LATENT"), ("type", .str "LATENT"), ("links", .list links),
      ("slot_index", .int 0)]
  let node (id : Int) (type : String) (inputs outputs : List Value) : Value :=
    .dict [("id", .int id), ("type", .str type), ("pos", .list [.int id, .int 0]),
      ("mode", .int 0), ("inputs", .list inputs), ("outputs", .list outputs),
      ("widgets_values", .list [.int 1])]
  let link (id source target slot : Int) : Value :=
    .list [.int id, .int source, .int 0, .int target, .int slot, .str "LATENT"]
  .dict [
    ("nodes", .list [node 1 "Empty" [] [output [.int 1, .int 2]],
      node 2 "LatentMultiply" [input "samples" 1] [output [.int 3]],
      node 3 "Join" [input "a" 2, input "b" 3] []]),
    ("links", .list [link 1 1 2 0, link 2 1 3 0, link 3 2 3 1]),
    ("version", version)]

def latentContribution (id : Int) (callee : String) (arguments : List Argument)
    (names : List String) (twins : List Argument) (line : String) : Contribution :=
  ⟨.int id, ⟨arguments, names, twins, !names.isEmpty⟩,
    some ⟨names, .call callee arguments, false⟩, line⟩

def latent : Argument := .held "latent" (.str "LATENT") false

def latentSource : Contribution :=
  latentContribution 1 "Empty" [] ["latent"] [] "latent = Empty()\n"

def latentSwitch : Contribution :=
  latentContribution 2 "LatentMultiply" [latent, .widget (.int 1)] ["latent2"] [latent] ""

def latentSink : Contribution :=
  latentContribution 3 "Join" [latent, .held "latent2" (.str "LATENT") true] [] []
    "Join(latent, latent2)\n"

/-- The switch takes a variable of its own, since its input is used elsewhere. Its statement is left
out, and nothing sets the variable before it is read. -/
theorem script_closed_iff_restored_sharedLatent :
    ∃ t, (openWorkflow sharedLatent latentTypes).2 = .ok t ∧
      t.contributionsFor .null = .ok [latentSource, latentSwitch, latentSink] ∧
      ¬ Closed [latentSource, latentSwitch, latentSink] := by
  obtain ⟨t, ht, hcs⟩ : ∃ t, (openWorkflow sharedLatent latentTypes).2 = .ok t ∧
      t.contributionsFor .null = .ok [latentSource, latentSwitch, latentSink] := ⟨_, rfl, rfl⟩
  have hscript : (t.script .null false).1.script =
      .ok (textOf false [latentSource, latentSwitch, latentSink]) := by
    rw [script_eq, hcs]
    rfl
  obtain ⟨cs, hcs', -, -, hiff⟩ := script_closed_iff_restored ht hscript
  obtain rfl := Except.ok.inj (hcs.symm.trans hcs')
  refine ⟨t, ht, hcs, fun hclosed => ?_⟩
  obtain ⟨b, hb, -⟩ := hiff.mp hclosed [latentSource] latentSwitch [] latentSink [] rfl rfl rfl
    "latent2" (by decide) (by decide) (by decide) (by decide)
  cases hb

end Transpiler

end Flowscript.Workflow
