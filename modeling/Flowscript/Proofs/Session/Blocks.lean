import Flowscript.Proofs.Session.Stage

/-!
# Blocks within workflows

A routine calls nodes and runs blocks within workflows. The workflow of a block is entered before the
block and left after it, however the block ends. Blocks may stand in each other and fail, and the
routine may go on after a failure.

At most one workflow collects outputs. The routine is disciplined if this is kept up: a workflow is
entered if and only if no other one collects outputs, each call adds its outputs to the one that does,
and once a block ends, nothing is collected any more and its workflow is queued unless the block
failed.
-/

namespace Flowscript

open List Option

variable {κ : Type}

/-- A routine. What it does after a call or a block depends on the result, which may be a fault. -/
inductive Routine where
  | done
  | fail (e : Fault)
  | call (n : VirtualNode) (arguments : List Value) (named : List (String × Value))
      (next : Except Fault Value → Routine)
  | within (flow : Nat) (source : Value) (body : Routine) (next : Except Fault Unit → Routine)

inductive Routine.Step where
  | enter (flow : Nat)
  | call (n : VirtualNode) (arguments : List Value) (named : List (String × Value))
  | leave (flow : Nat) (source : Value) (failed : Bool)

structure Moment (κ : Type) where
  step : Routine.Step
  before : Session κ

structure Outcome (κ : Type) where
  moments : List (Moment κ)
  result : Except Fault Unit
  session : Session κ

def Outcome.behind (earlier : List (Moment κ)) (o : Outcome κ) : Outcome κ :=
  { o with moments := earlier ++ o.moments }

/-- A routine is run. A block whose workflow cannot be entered is not run. The result of a block is that
of its body, unless its workflow cannot be left. -/
def Routine.run : Routine → Session κ → Outcome κ
  | .done, s => ⟨[], .ok (), s⟩
  | .fail e, s => ⟨[], .error e, s⟩
  | .call n arguments named next, s =>
    let called := (SessionM.callNode n arguments named).run s
    ((next called.1).run called.2).behind [⟨.call n arguments named, s⟩]
  | .within f source body next, s =>
    match (SessionM.enterFlow f).run s with
    | (.error e, s₁) => ((next (.error e)).run s₁).behind [⟨.enter f, s⟩]
    | (.ok _, s₁) =>
      let inner := body.run s₁
      let failed := !inner.result.isOk
      let left := (SessionM.leaveFlow f source failed).run inner.session
      ((next (left.1 >>= fun _ => inner.result)).run left.2).behind
        (⟨.enter f, s⟩ :: inner.moments ++ [⟨.leave f source failed, inner.session⟩])

/-- The blocks of a routine are within known workflows, and no block is within the workflow of a block
around it. -/
def Routine.Over (known : Nat → Prop) : Routine → List Nat → Prop
  | .done, _ | .fail _, _ => True
  | .call _ _ _ next, outer => ∀ result, (next result).Over known outer
  | .within f _ body next, outer => known f ∧ f ∉ outer ∧ body.Over known (f :: outer) ∧
      ∀ result, (next result).Over known outer

/-- A workflow is entered if and only if none collects outputs, and it starts without outputs then. If
it is refused, the workflow that collects outputs goes on with those that it has. -/
structure Enters (f : Nat) (s : Session κ) (final : Except Fault Unit × Session κ) : Prop where
  ok_iff : final.1 = .ok () ↔ s.hook = none
  entered : final.1 = .ok () → final.2.hook = some f ∧ final.2.stage.outputs f = []
  refused : final.1 ≠ .ok () → final.2.hook = s.hook
  active : ∀ g, s.hook = some g → final.2.stage.outputs g = s.stage.outputs g
  others : ∀ g, g ≠ f → final.2.stage.outputs g = s.stage.outputs g

/-- The outputs of a call join those of the workflow that collects them, and of no other. -/
structure Calls (n : VirtualNode) (s : Session κ) (final : Except Fault Value × Session κ) :
    Prop where
  hook : final.2.hook = s.hook
  outputs : ∀ g, final.2.stage.outputs g =
    s.stage.outputs g ++ if s.hook = some g then n.offers final.1 else []

/-- Nothing is collected any more once a workflow is left. It is queued if and only if its block did not
fail and it is meant to be. -/
structure Leaves (f : Nat) (source : Value) (failed : Bool) (s : Session κ)
    (final : Except Fault Unit × Session κ) : Prop where
  active : s.hook = some f
  clear : final.2.hook = none
  outputs : ∀ g, final.2.stage.outputs g = s.stage.outputs g
  queues : ∃ flow sent, Table.find? f s.flows = some flow ∧
    final.2.stage.requests = s.stage.requests ++ sent ∧
    if !failed && flow.queueOnExit then
      SessionM.Queues s.baseUrl s.saveSource flow source final.1 sent
    else sent = [] ∧ final.1 = .ok ()

namespace Moment

def after : Moment κ → Session κ
  | ⟨.enter f, s⟩ => ((SessionM.enterFlow f).run s).2
  | ⟨.call n arguments named, s⟩ => ((SessionM.callNode n arguments named).run s).2
  | ⟨.leave f source failed, s⟩ => ((SessionM.leaveFlow f source failed).run s).2

def offered : Moment κ → List Value
  | ⟨.call n arguments named, s⟩ => n.offers ((SessionM.callNode n arguments named).run s).1
  | _ => []

def isLeave : Moment κ → Bool
  | ⟨.leave .., _⟩ => true
  | _ => false

def Lawful : Moment κ → Prop
  | ⟨.enter f, s⟩ => Enters f s ((SessionM.enterFlow f).run s)
  | ⟨.call n arguments named, s⟩ => Calls n s ((SessionM.callNode n arguments named).run s)
  | ⟨.leave f source failed, s⟩ =>
    Leaves f source failed s ((SessionM.leaveFlow f source failed).run s)

end Moment

def Chained : Session κ → List (Moment κ) → Session κ → Prop
  | s, [], s' => s = s'
  | s, m :: rest, s' => m.before = s ∧ Chained m.after rest s'

/-- A run in which every step does what it has to. A workflow that is left has collected the outputs of
the calls since it was entered, each once and in order. In the end nothing is collected any more. -/
structure Disciplined (s : Session κ) (o : Outcome κ) : Prop where
  chained : Chained s o.moments o.session
  lawful : ∀ m ∈ o.moments, m.Lawful
  collected : ∀ earlier f entering during source failed leaving later,
    o.moments = earlier ++ ⟨.enter f, entering⟩ :: during ++ ⟨.leave f source failed, leaving⟩ :: later →
    entering.hook = none → (∀ m ∈ during, m.isLeave = false) →
      leaving.stage.outputs f = during.flatMap Moment.offered
  clear : o.session.hook = none

section Chained

variable {s s' : Session κ}

theorem chained_append {xs ys : List (Moment κ)} :
    Chained s (xs ++ ys) s' ↔ ∃ t, Chained s xs t ∧ Chained t ys s' := by
  induction xs generalizing s with
  | nil => simp [Chained]
  | cons m rest ih => simp [Chained, ih, and_assoc]

theorem chained_run (r : Routine) (s : Session κ) : Chained s (r.run s).moments (r.run s).session := by
  induction r generalizing s with
  | done => rfl
  | fail e => rfl
  | call n arguments named next ih => exact ⟨rfl, ih _ _⟩
  | within f source body next ihBody ihNext =>
    -- the steps of the body start where entering ends, and leaving starts where they end
    have hafter : (⟨.enter f, s⟩ : Moment κ).after = ((SessionM.enterFlow f).run s).2 := rfl
    unfold Routine.run
    rcases hrun : (SessionM.enterFlow f).run s with ⟨e | _, s₁⟩ <;> rw [hrun] at hafter
    · exact ⟨rfl, hafter ▸ ihNext _ _⟩
    · refine chained_append.mpr ⟨_, ⟨rfl, chained_append.mpr ⟨_, hafter ▸ ihBody s₁, rfl, rfl⟩⟩, ?_⟩
      exact ihNext _ _

theorem Chained.collects {f : Nat} {moments : List (Moment κ)} (h : Chained s moments s')
    (hlawful : ∀ m ∈ moments, m.Lawful) (hstay : ∀ m ∈ moments, m.isLeave = false)
    (hhook : s.hook = some f) :
    s'.hook = some f ∧
      s'.stage.outputs f = s.stage.outputs f ++ moments.flatMap Moment.offered := by
  induction moments generalizing s with
  | nil =>
    cases h
    exact ⟨hhook, by simp⟩
  | cons m rest ih =>
    obtain ⟨rfl, hrest⟩ := h
    have hm := hlawful m mem_cons_self
    have hone : m.after.hook = some f ∧
        m.after.stage.outputs f = m.before.stage.outputs f ++ m.offered := by
      obtain ⟨step, s⟩ := m
      cases step with
      | enter g =>
        -- it is refused, since `f` collects outputs
        have hm : Enters g s _ := hm
        have hne : ((SessionM.enterFlow g).run s).1 ≠ .ok () := fun hok => by
          simp [hm.ok_iff.mp hok] at hhook
        exact ⟨(hm.refused hne).trans hhook, (hm.active f hhook).trans (append_nil _).symm⟩
      | call n arguments named =>
        have hm : Calls n s _ := hm
        exact ⟨hm.hook.trans hhook, (hm.outputs f).trans (by rw [if_pos hhook]; rfl)⟩
      | leave => cases hstay _ mem_cons_self
    obtain ⟨hhook', houtputs⟩ := ih hrest (fun m hm => hlawful m (mem_cons_of_mem _ hm))
      (fun m hm => hstay m (mem_cons_of_mem _ hm)) hone.1
    refine ⟨hhook', ?_⟩
    rw [houtputs, hone.2, flatMap_cons, append_assoc]

theorem Chained.collected {moments : List (Moment κ)} (h : Chained s moments s')
    (hlawful : ∀ m ∈ moments, m.Lawful) {earlier during later : List (Moment κ)} {f : Nat}
    {entering leaving : Session κ} {source : Value} {failed : Bool}
    (hmoments : moments =
      earlier ++ ⟨.enter f, entering⟩ :: during ++ ⟨.leave f source failed, leaving⟩ :: later)
    (hnone : entering.hook = none) (hstay : ∀ m ∈ during, m.isLeave = false) :
    leaving.stage.outputs f = during.flatMap Moment.offered := by
  subst hmoments
  have henter : Enters f entering _ := hlawful ⟨.enter f, entering⟩ (by simp)
  obtain ⟨hhook, hempty⟩ := henter.entered (henter.ok_iff.mpr hnone)
  rw [append_assoc] at h
  obtain ⟨_, -, rfl, h⟩ := chained_append.mp h
  obtain ⟨_, hduring, rfl, -⟩ := chained_append.mp h
  have hcollects := (hduring.collects (fun m hm => hlawful m (by simp [hm])) hstay hhook).2
  have hempty : (⟨.enter f, entering⟩ : Moment κ).after.stage.outputs f = [] := hempty
  rwa [hempty, nil_append] at hcollects

end Chained

namespace Stage

def Has (stage : Stage) (f : Nat) : Prop := (stage.flows f).isSome = true

/-- Routines can be run: nothing hides the place where outputs are collected, the workflows exist, and
the one that collects outputs is that of a block around and has outputs only. -/
structure Ready (known : Nat → Prop) (outer : List Nat) (stage : Stage) : Prop where
  inReach : stage.HookInReach
  has : ∀ f, known f → stage.Has f
  active : ∀ f, stage.hook = some f →
    f ∈ outer ∧ known f ∧ ∀ o ∈ stage.outputs f, (Prompt.callOf? o).isSome = true

theorem has_change (stage : Stage) (id f : Nat) (g : Flow → Flow) :
    (stage.change id g).Has f ↔ stage.Has f := by
  unfold Has change
  dsimp only
  split
  · rw [isSome_map]
  · rfl

end Stage

section Steps

variable {s : Session κ} {known : Nat → Prop} {outer : List Nat} {f : Nat}

theorem Stage.outputs_eq {flow : Flow} (h : Table.find? f s.flows = some flow) :
    s.stage.outputs f = flow.outputs := by
  simp [Stage.outputs, Session.stage, h, Flow.untasked]

open SessionM

theorem Stage.Ready.emptying (h : s.stage.Ready known outer) (houter : f ∉ outer) :
    (emptying f s).stage.Ready known outer := by
  rw [stage_emptying]
  refine ⟨h.inReach, fun g hg => (s.stage.has_change f g _).mpr (h.has g hg), fun g hg => ?_⟩
  obtain ⟨hmem, hknown, houtputs⟩ := h.active g hg
  have hne : g ≠ f := fun heq => houter (heq ▸ hmem)
  rw [s.stage.outputs_change_of_ne hne]
  exact ⟨hmem, hknown, houtputs⟩

theorem Stage.Ready.enter (h : s.stage.Ready known outer) (hknown : known f) (houter : f ∉ outer) :
    (⟨.enter f, s⟩ : Moment κ).Lawful ∧
      ((∃ s₁, (enterFlow f).run s = (.ok (), s₁) ∧ s.hook = none ∧ s₁.hook = some f ∧
          s₁.stage.Ready known (f :: outer)) ∨
        ∃ e s₁, (enterFlow f).run s = (.error e, s₁) ∧ s₁.hook = s.hook ∧
          s₁.stage.Ready known outer) := by
  have hrun := run_enterFlow f h.inReach.1
  have hready := h.emptying houter
  have hothers : ∀ g, g ≠ f → (SessionM.emptying f s).stage.outputs g = s.stage.outputs g := by
    intro g hg
    rw [stage_emptying, s.stage.outputs_change_of_ne hg]
  have hempty : (SessionM.emptying f s).stage.outputs f = [] := by
    obtain ⟨flow, hflow⟩ := isSome_iff_exists.mp (h.has f hknown)
    rw [stage_emptying]
    simp [Stage.outputs, Stage.change, hflow, emptied]
  -- the workflow that collects outputs is that of a block around, so it is not `f`
  have hactive : ∀ g, s.hook = some g →
      (SessionM.emptying f s).stage.outputs g = s.stage.outputs g :=
    fun g hg => hothers g fun heq => houter (heq ▸ (h.active g hg).1)
  cases hhook : s.hook with
  | none =>
    rw [hhook] at hrun
    refine ⟨?_, .inl ⟨_, hrun, rfl, rfl, hready.inReach, hready.has, ?_⟩⟩
    · change Enters f s _
      rw [hrun]
      exact ⟨⟨fun _ => hhook, fun _ => rfl⟩, fun _ => ⟨rfl, hempty⟩, fun hne => absurd rfl hne,
        hactive, hothers⟩
    · rintro g hg
      obtain rfl : f = g := some.inj hg
      refine ⟨mem_cons_self, hknown, fun o ho => ?_⟩
      have ho : o ∈ (SessionM.emptying f s).stage.outputs f := ho
      rw [hempty] at ho
      cases ho
  | some g =>
    rw [hhook] at hrun
    refine ⟨?_, .inr ⟨_, _, hrun, hhook, hready⟩⟩
    change Enters f s _
    rw [hrun]
    have hne : (.error .hookInUse : Except Fault Unit) ≠ .ok () := by simp
    exact ⟨⟨fun hok => absurd hok hne, fun hnone => by simp [hhook] at hnone⟩,
      fun hok => absurd hok hne, fun _ => rfl, hactive, hothers⟩

theorem Stage.Ready.call (h : s.stage.Ready known outer) (n : VirtualNode) (arguments : List Value)
    (named : List (String × Value)) :
    (⟨.call n arguments named, s⟩ : Moment κ).Lawful ∧
      ((callNode n arguments named).run s).2.hook = s.hook ∧
      ((callNode n arguments named).run s).2.stage.Ready known outer := by
  obtain ⟨hstage, hoffers⟩ := leads_callNode n arguments named s
  have hhook : ((callNode n arguments named).run s).2.hook = s.hook :=
    (congrArg Stage.hook hstage).trans (s.stage.hook_collect _)
  have houtputs := s.stage.outputs_collect (fun g hg => h.has g (h.active g hg).2.1)
    (n.offers ((callNode n arguments named).run s).1)
  have hlawful : Calls n s ((callNode n arguments named).run s) :=
    ⟨hhook, fun g => by rw [hstage, houtputs g]; rfl⟩
  refine ⟨hlawful, hhook, ?_⟩
  rw [hstage]
  generalize n.offers ((callNode n arguments named).run s).1 = items at hoffers houtputs
  cases hactive : s.stage.hook with
  | none => rwa [Stage.collect_of_none hactive]
  | some g =>
    obtain ⟨hmem, hknown, hold⟩ := h.active g hactive
    rw [Stage.collect_of_hook hactive] at houtputs ⊢
    refine ⟨h.inReach, fun f hf => (s.stage.has_change g f _).mpr (h.has f hf), fun f hf => ?_⟩
    obtain rfl : g = f := some.inj (hactive.symm.trans hf)
    refine ⟨hmem, hknown, fun o ho => ?_⟩
    -- an output was there before, or is one of the call
    rw [houtputs g, if_pos hactive] at ho
    exact (mem_append.mp ho).elim (hold o) (hoffers o)

theorem Stage.Ready.leave (h : s.stage.Ready known (f :: outer)) (hhook : s.hook = some f)
    (source : Value) (failed : Bool) :
    (⟨.leave f source failed, s⟩ : Moment κ).Lawful ∧
      ((leaveFlow f source failed).run s).2.stage.Ready known outer := by
  obtain ⟨-, hknown, houtputs⟩ := h.active f hhook
  obtain ⟨flow, hflow, -⟩ := map_eq_some_iff.mp
    (isSome_iff_exists.mp (h.has f hknown)).choose_spec
  rw [Stage.outputs_eq hflow] at houtputs
  have hafter : ∃ sent, ((leaveFlow f source failed).run s).2.stage = (released s).stage.send sent ∧
      if !failed && flow.queueOnExit then
        Queues s.baseUrl s.saveSource flow source ((leaveFlow f source failed).run s).1 sent
      else sent = [] ∧ ((leaveFlow f source failed).run s).1 = .ok () := by
    cases hqueue : !failed && flow.queueOnExit with
    | true => exact leaveFlow_queues source h.inReach.2 hflow houtputs hqueue
    | false =>
      rw [run_leaveFlow source h.inReach.2 hflow hqueue]
      exact ⟨[], ((released s).stage.send_nil).symm, rfl, rfl⟩
  obtain ⟨sent, hstage, hsent⟩ := hafter
  refine ⟨⟨hhook, congrArg Stage.hook hstage, fun g => ?_, flow, sent, hflow, ?_, hsent⟩, ?_⟩
  · rw [hstage]
    rfl
  · rw [hstage]
    rfl
  · rw [hstage]
    exact ⟨h.inReach, h.has, nofun⟩

end Steps

theorem Stage.Ready.lawful_run {known : Nat → Prop} (r : Routine) {outer : List Nat} {s : Session κ}
    (h : s.stage.Ready known outer) (hover : r.Over known outer) :
    (∀ m ∈ (r.run s).moments, m.Lawful) ∧ (r.run s).session.hook = s.hook ∧
      (r.run s).session.stage.Ready known outer := by
  induction r generalizing outer s with
  | done => exact ⟨forall_mem_nil _, rfl, h⟩
  | fail e => exact ⟨forall_mem_nil _, rfl, h⟩
  | call n arguments named next ih =>
    obtain ⟨hlawful, hhook, hready⟩ := h.call n arguments named
    obtain ⟨hrest, hhook', hready'⟩ := ih _ hready (hover _)
    exact ⟨forall_mem_cons.mpr ⟨hlawful, hrest⟩, hhook'.trans hhook, hready'⟩
  | within f source body next ihBody ihNext =>
    obtain ⟨hknown, houter, hbody, hnext⟩ := hover
    obtain ⟨hlawful, ⟨s₁, hrun, hnone, hhook, hready⟩ | ⟨e, s₁, hrun, hhook, hready⟩⟩ :=
      h.enter hknown houter
    · unfold Routine.run
      rw [hrun]
      obtain ⟨hinner, hhook₁, hready₁⟩ := ihBody hready hbody
      -- the body gives back the workflow that it was run within
      obtain ⟨hleave, hready₂⟩ := hready₁.leave (hhook₁.trans hhook) source (!(body.run s₁).result.isOk)
      obtain ⟨hrest, hhook₂, hready₃⟩ := ihNext _ hready₂ (hnext _)
      refine ⟨forall_mem_append.mpr ⟨forall_mem_cons.mpr ⟨hlawful,
        forall_mem_append.mpr ⟨hinner, forall_mem_singleton.mpr hleave⟩⟩, hrest⟩, ?_, hready₃⟩
      exact hhook₂.trans (hleave.clear.trans hnone.symm)
    · unfold Routine.run
      rw [hrun]
      obtain ⟨hrest, hhook', hready'⟩ := ihNext _ hready (hnext _)
      exact ⟨forall_mem_cons.mpr ⟨hlawful, hrest⟩, hhook'.trans hhook, hready'⟩

theorem Routine.disciplined_run {r : Routine} {s : Session κ} (hhook : s.hook = none)
    (hreach : s.stage.HookInReach) (hover : r.Over s.stage.Has []) : Disciplined s (r.run s) := by
  have hready : s.stage.Ready s.stage.Has [] :=
    ⟨hreach, fun _ hf => hf, fun f hf => by cases hhook.symm.trans hf⟩
  obtain ⟨hlawful, hfinal, -⟩ := hready.lawful_run r hover
  refine ⟨chained_run r s, hlawful, ?_, hfinal.trans hhook⟩
  intro earlier f entering during source failed leaving later hmoments hnone hstay
  exact (chained_run r s).collected hlawful hmoments hnone hstay

section Hidden

open SessionM

variable {s : Session κ} {f : Nat}

theorem Enters.reaches (h : Enters f s ((enterFlow f).run s)) (hhook : s.hook = none) :
    s.stage.reaches "set_output_hook" = true := by
  by_contra hreaches
  obtain ⟨e, hrun⟩ := run_enterFlow_error (s := s) f (Bool.eq_false_iff.mpr hreaches)
  have hok := h.ok_iff.mpr hhook
  rw [hrun] at hok
  cases hok

theorem Leaves.reaches {source : Value} {failed : Bool}
    (h : Leaves f source failed s ((leaveFlow f source failed).run s)) :
    s.stage.reaches "clear_output_hook" = true := by
  by_contra hreaches
  obtain ⟨e, hcheck⟩ := run_checkHook_error (s := s) .wrongKind (Bool.eq_false_iff.mpr hreaches)
  have hclear := h.clear
  unfold leaveFlow clearHook at hclear
  rw [run_bind_error (run_bind_error hcheck)] at hclear
  cases h.active.symm.trans hclear

end Hidden

/-- **Discipline of blocks.** Where no workflow collects outputs, every routine over the workflows of a
session is disciplined if and only if nothing hides the place where outputs are collected: no data type
has its name, and no enumeration takes the place of one of its operations. -/
theorem disciplined_iff_hookInReach {s : Session κ} (hhook : s.hook = none)
    (hflow : ∃ f, s.stage.Has f) :
    (∀ r : Routine, r.Over s.stage.Has [] → Disciplined s (r.run s)) ↔ s.stage.HookInReach := by
  refine ⟨fun h => ?_, fun hreach r hover => Routine.disciplined_run hhook hreach hover⟩
  obtain ⟨f, hf⟩ := hflow
  -- an empty block enters its workflow and leaves it again
  have hblock := h (.within f .null .done fun _ => .done) ⟨hf, List.not_mem_nil, trivial, fun _ => trivial⟩
  unfold Routine.run at hblock
  have hset : s.stage.reaches "set_output_hook" = true := by
    refine Enters.reaches (f := f) (hblock.lawful ⟨.enter f, s⟩ ?_) hhook
    split <;> exact List.mem_cons_self
  refine ⟨hset, ?_⟩
  rw [SessionM.run_enterFlow f hset, hhook] at hblock
  exact (hblock.lawful ⟨.leave f .null false, _⟩
    (List.mem_append_left _ (List.mem_cons_of_mem _ List.mem_cons_self))).reaches

section Example

def savingNode : VirtualNode where
  entry := ⟨.dict [("name", .str "Save"), ("input", .dict []), ("output_node", .bool true)], [], [], []⟩
  packs := false

def twoFlows : Session Unit :=
  { Session.new ⟨[]⟩ "http://host/" false with
    flows := [(1, SessionM.plainFlow), (2, SessionM.plainFlow)] }

def hiddenPlace : Session Unit := { twoFlows with vars := [("Node", .data "Node" "NODE")] }

/-- A block within a block, and calls before, in and after the inner one. -/
def nestedBlocks : Routine :=
  .within 1 .null
    (.call savingNode [] [] fun _ =>
      .within 2 .null (.call savingNode [] [] fun _ => .done) fun _ =>
        .call savingNode [] [] fun _ => .fail .wrongKind)
    fun _ => .call savingNode [] [] fun _ => .done

/-- Blocks within each other are disciplined, but not if a data type hides the place where outputs are
collected. -/
theorem disciplined_iff_hookInReach_nestedBlocks :
    nestedBlocks.Over twoFlows.stage.Has [] ∧ Disciplined twoFlows (nestedBlocks.run twoFlows) ∧
      ¬ ∀ r : Routine, r.Over hiddenPlace.stage.Has [] → Disciplined hiddenPlace (r.run hiddenPlace) := by
  have hover : nestedBlocks.Over twoFlows.stage.Has [] :=
    ⟨rfl, List.not_mem_nil, fun _ => ⟨rfl, by decide, fun _ => trivial, fun _ _ => trivial⟩,
      fun _ _ => trivial⟩
  refine ⟨hover, (disciplined_iff_hookInReach (s := twoFlows) rfl ⟨1, rfl⟩).mpr ⟨rfl, rfl⟩ _ hover, fun h => ?_⟩
  obtain ⟨hset, -⟩ := (disciplined_iff_hookInReach (s := hiddenPlace) rfl ⟨1, rfl⟩).mp h
  cases hset

end Example

end Flowscript
