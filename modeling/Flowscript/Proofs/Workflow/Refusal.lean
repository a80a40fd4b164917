import Flowscript.Proofs.Workflow.Ends
import Flowscript.Proofs.Workflow.Sketch

/-!
# Refusals

A pass refuses a statement that does not have the form which its node promises. Everything else that
goes wrong on the way to a script goes wrong because a value cannot be read as what it should be. So a
script that ends in a refusal ends at a statement that was drawn up, and refused then.
-/

namespace Flowscript

open List Option

@[simp]
def Fault.isRefusal : Fault → Bool
  | .unexpectedStatement _ | .broken => true
  | _ => false

/-- The result is there, or it is another fault than a refusal. -/
def Unrefused {α : Type} (x : Except Fault α) : Prop := ∀ f, x = .error f → f.isRefusal = false

section Results

variable {α β : Type}

@[simp]
theorem unrefused_ok (a : α) : Unrefused (.ok a : Except Fault α) := by
  intro f h
  cases h

theorem unrefused_error {f : Fault} (h : f.isRefusal = false) : Unrefused (.error f : Except Fault α) :=
  fun _ heq => Except.error.inj heq ▸ h

@[simp]
theorem unrefused_error_iff {f : Fault} : Unrefused (.error f : Except Fault α) ↔ f.isRefusal = false :=
  ⟨fun h => h f rfl, unrefused_error⟩

@[simp]
theorem unrefused_pure (a : α) : Unrefused (pure a : Except Fault α) := unrefused_ok a

@[simp]
theorem Unrefused.bind {x : Except Fault α} {f : α → Except Fault β} (hx : Unrefused x)
    (hf : ∀ a, Unrefused (f a)) : Unrefused (x >>= f) := by
  cases x with
  | error e => exact unrefused_error (hx e rfl)
  | ok a => exact hf a

@[simp]
theorem Unrefused.map {x : Except Fault α} (hx : Unrefused x) (f : α → β) : Unrefused (x.map f) := by
  cases x with
  | error e => exact unrefused_error (hx e rfl)
  | ok a => exact unrefused_ok (f a)

theorem Unrefused.foldlM {f : β → α → Except Fault β} (hf : ∀ b a, Unrefused (f b a)) (items : List α)
    (b : β) : Unrefused (items.foldlM f b) := by
  induction items generalizing b with
  | nil => exact unrefused_ok b
  | cons a rest ih => exact (hf b a).bind ih

theorem Unrefused.mapM {f : α → Except Fault β} (hf : ∀ a, Unrefused (f a)) (items : List α) :
    Unrefused (items.mapM f) := by
  induction items with
  | nil => exact unrefused_ok []
  | cons a rest ih =>
    rw [mapM_cons]
    exact (hf a).bind fun b => ih.bind fun bs => unrefused_ok (b :: bs)

end Results

/-! ## Values -/

namespace Value

variable (v w : Value) {α : Type}

@[simp]
theorem unrefused_nth (items : List α) (i : Int) : Unrefused (nth items i) := by
  unfold nth
  repeat' split
  all_goals simp

theorem unrefused_item : Unrefused (v.item w) := by
  unfold item
  repeat' split
  all_goals simp

theorem unrefused_get (key : String) : Unrefused (v.get key) := by
  unfold get
  split <;> simp

theorem unrefused_field (name : String) : Unrefused (v.field name) := by
  unfold field
  split <;> simp

theorem unrefused_iterate : Unrefused v.iterate := by
  unfold iterate
  split <;> simp

theorem unrefused_length : Unrefused v.length := (unrefused_iterate v).map _

theorem unrefused_entries : Unrefused v.entries := by
  unfold entries
  split <;> simp

theorem unrefused_containsText (key : String) : Unrefused (v.containsText key) := by
  unfold containsText
  split <;> simp

theorem unrefused_add : Unrefused (v.add w) := by
  unfold add
  repeat' split
  all_goals simp

theorem unrefused_lessItems {xs ys : List Value} (h : ∀ x ∈ xs, ∀ y, Unrefused (less x y)) :
    Unrefused (lessItems xs ys) := by
  induction xs generalizing ys with
  | nil => cases ys <;> (rw [lessItems]; exact unrefused_ok _)
  | cons x rest ih =>
    cases ys with
    | nil =>
      rw [lessItems]
      exact unrefused_ok _
    | cons y ys =>
      rw [lessItems]
      split
      · exact ih fun x hx => h x (mem_cons_of_mem _ hx)
      · exact h x mem_cons_self y

theorem unrefused_less (v w : Value) : Unrefused (less v w) := by
  rw [less.eq_def]
  split
  next xs ys => exact unrefused_lessItems fun x hx y => unrefused_less x y
  next xs ys => exact unrefused_lessItems fun x hx y => unrefused_less x y
  · repeat' split
    all_goals simp
termination_by sizeOf v
decreasing_by
  all_goals
    have := List.sizeOf_lt_of_mem hx
    simp +arith [*]
    omega

theorem unrefused_insertSorted (key : Value) (a : α) (items : List (Value × α)) :
    Unrefused (insertSorted key a items) := by
  induction items with
  | nil => exact unrefused_ok _
  | cons entry rest ih =>
    unfold insertSorted
    refine (unrefused_less _ _).bind fun before => ?_
    split
    · simp
    · exact ih.bind fun _ => unrefused_ok _

theorem unrefused_sortByKey (items : List (Value × α)) : Unrefused (sortByKey items) :=
  Unrefused.foldlM (fun _ _ => unrefused_insertSorted _ _ _) items []

theorem unrefused_whole : Unrefused v.whole := by
  unfold whole
  repeat' split
  all_goals simp

theorem unrefused_nameOf : Unrefused (Identifier.nameOf v) := by
  unfold Identifier.nameOf
  split <;> simp

end Value

namespace Workflow

open Value

/-! ## Graphs and node types -/

namespace Graph

variable (g : Graph) (id : Value)

theorem unrefused_hasVertex : Unrefused (g.hasVertex id) := by
  unfold hasVertex
  split <;> simp

theorem unrefused_link : Unrefused (g.link id) := by
  unfold link
  repeat' split
  all_goals simp

theorem unrefused_endOf : Unrefused (g.endOf id) := by
  refine (unrefused_link g id).bind fun l => ?_
  unfold edge
  split <;> simp

theorem unrefused_nodeOf : Unrefused (g.nodeOf id) := by
  unfold nodeOf
  repeat' split
  all_goals simp

end Graph

section Types

variable (nodesInfo type : Value)

theorem unrefused_isListed : Unrefused (isListed nodesInfo type) := by
  unfold isListed
  split
  · split <;> simp
  · simp
  · split
    · exact unrefused_containsText _ _
    · simp
  · simp

theorem unrefused_inputTypes : Unrefused (inputTypes nodesInfo type) := by
  unfold inputTypes
  split
  · simp
  split
  · simp
  split
  · simp
  refine (unrefused_isListed nodesInfo type).bind fun listed => ?_
  split
  · exact (unrefused_item _ _).bind fun info => unrefused_item info _
  · simp

theorem unrefused_widgetsOf (name : String) (config : Value) :
    Unrefused (widgetsOf type name config) := by
  unfold widgetsOf
  refine (unrefused_item _ _).bind fun kind => (unrefused_length _).bind fun length => ?_
  split
  · simp
  refine (unrefused_item _ _).bind fun options => ?_
  split
  · split
    · split <;> simp
    · simp
  · simp

theorem unrefused_widgetNames : Unrefused (widgetNames nodesInfo type) := by
  refine (unrefused_inputTypes nodesInfo type).bind fun types => Unrefused.foldlM (fun all name => ?_) _ _
  refine (unrefused_get types name).bind fun group => ?_
  split
  · simp
  · simp
  · refine (unrefused_entries _).bind fun entries => Unrefused.foldlM (fun all entry => ?_) _ _
    exact (unrefused_widgetsOf type _ _).bind fun _ => unrefused_ok _

theorem unrefused_widgetValues (values : Value) : Unrefused (widgetValues nodesInfo type values) := by
  unfold widgetValues
  split
  · simp
  · exact (unrefused_widgetNames nodesInfo type).bind fun _ => (unrefused_iterate _).bind fun _ => unrefused_ok _

theorem unrefused_positional {α : Type} (arg : String → Option α) (absent : α) :
    Unrefused (positional nodesInfo type arg absent) := by
  refine (unrefused_inputTypes nodesInfo type).bind fun types => Unrefused.foldlM (fun all name => ?_) _ _
  refine (unrefused_get types name).bind fun group => ?_
  split
  · simp
  · simp
  · refine (unrefused_iterate _).bind fun items => Unrefused.foldlM (fun all input => ?_) _ _
    unfold appendInput
    split <;> simp

theorem unrefused_choice? (widgets : List (String × Value)) : Unrefused (choice? type widgets) := by
  have hmultiplexer : Unrefused (multiplexer? type) := by
    unfold multiplexer?
    split <;> simp
  refine hmultiplexer.bind fun found => ?_
  split <;> simp

theorem unrefused_keeps (m : Multiplexer) (chosen : String) (input : Value) :
    Unrefused (m.keeps chosen input) := by
  refine (unrefused_field input _).bind fun type => ?_
  split
  · exact (unrefused_field input _).bind fun _ => unrefused_ok _
  · simp

end Types

/-! ## The order of statements -/

section Order

variable (nodesInfo : Value) (g : Graph)

theorem unrefused_choiceOfNode (node : Value) : Unrefused (choiceOfNode nodesInfo node) := by
  have hwidgets : Unrefused (widgetsOfNode nodesInfo node) := by
    unfold widgetsOfNode
    split
    · exact (unrefused_field node _).bind fun type =>
        (unrefused_widgetValues nodesInfo type _).bind fun _ => unrefused_ok _
    · simp
  refine hwidgets.bind fun widgets => ?_
  split
  · simp
  · exact (unrefused_field node _).bind fun type => unrefused_choice? type _

theorem unrefused_followedSource (choice : Option (Multiplexer × String)) (input : Value) :
    Unrefused (followedSource g choice input) := by
  have hsource : Unrefused (sourceOf g input) := by
    refine (unrefused_field input _).bind fun link => ?_
    split
    · simp
    · exact (g.unrefused_link _).bind fun _ => unrefused_ok _
  unfold followedSource
  split
  · exact hsource
  · refine (unrefused_keeps _ _ input).bind fun kept => ?_
    split
    · exact hsource
    · simp

def NotRefused (fault : Option Fault) : Prop := ∀ f, fault = some f → f.isRefusal = false

theorem notRefused_none : NotRefused none := by
  intro f h
  cases h

theorem notRefused_readEach {α β : Type} {f : α → Except Fault (Option β)}
    (hf : ∀ a, Unrefused (f a)) (items : List α) : NotRefused (readEach f items).fault := by
  induction items with
  | nil => exact notRefused_none
  | cons a rest ih =>
    unfold readEach
    split
    next e he => exact fun f hf' => some.inj hf' ▸ hf a e he
    · exact ih
    · exact ih

theorem notRefused_sources (id : Value) : NotRefused (sources nodesInfo g id).fault := by
  unfold sources
  dsimp only
  split
  next e he =>
    have hinputs := (g.unrefused_nodeOf id).bind (fun node => ?_) e he
    · exact fun f hf => some.inj hf ▸ hinputs
    split
    · simp
    · exact (unrefused_choiceOfNode nodesInfo node).bind fun _ =>
        (unrefused_iterate _).bind fun _ => unrefused_ok _
  · exact notRefused_readEach (unrefused_followedSource g _) _

section Walks

variable {next : Value → Reading Value}

theorem notRefused_foldl {visit : Walk → Value → Walk}
    (hvisit : ∀ walk id, NotRefused walk.fault → NotRefused (visit walk id).fault) (items : List Value)
    {walk : Walk} (hwalk : NotRefused walk.fault) : NotRefused (items.foldl visit walk).fault := by
  induction items generalizing walk with
  | nil => exact hwalk
  | cons id rest ih => exact ih (hvisit walk id hwalk)

theorem notRefused_visit (hnext : ∀ id, NotRefused (next id).fault) (depth : Nat) (walk : Walk) (id : Value)
    (hwalk : NotRefused walk.fault) : NotRefused (visit next depth walk id).fault := by
  induction depth generalizing walk id with
  | zero => exact hwalk
  | succ depth ih =>
    unfold visit
    split
    · exact hwalk
    split
    · exact fun f hf => some.inj hf ▸ rfl
    split
    · exact hwalk
    -- the fault of a visit is that of a visit below it, or that of reading what is next
    have hitems : NotRefused ((next id).items.foldl (visit next depth)
        { walk with visited := id :: walk.visited }).fault := notRefused_foldl ih _ hwalk
    dsimp only
    split
    · exact hitems
    next e _ he => exact fun f hf => hnext id f (he.trans hf)
    · exact hitems

end Walks

theorem unrefused_endNodes : Unrefused (endNodes g).2 := by
  have hkey (x : Vertex) : Unrefused (keyOf x) := by
    unfold keyOf
    split
    · simp
    next node _ =>
      refine (unrefused_field node _).bind fun pos => ?_
      split
      · exact (unrefused_field _ _).bind fun _ => (unrefused_field _ _).bind fun _ => unrefused_add _ _
      · exact (unrefused_iterate _).bind fun items => Unrefused.foldlM unrefused_add items _
  have hkeys (vs : List Vertex) : Unrefused (keyAll vs).2 := by
    induction vs with
    | nil => exact unrefused_ok _
    | cons x rest ih =>
      unfold keyAll
      split
      next e he => exact unrefused_error (hkey x e he)
      · exact ih.map _
  exact (hkeys g.sinks).bind fun keyed => (unrefused_sortByKey keyed).bind fun _ => unrefused_ok _

theorem notRefused_order (ends : Option Value) : NotRefused (order nodesInfo g ends).2.fault := by
  have hends : Unrefused (endsOf g ends) := by
    cases ends with
    | none => exact unrefused_endNodes g
    | some ends => exact unrefused_iterate ends
  cases hfound : endsOf g ends with
  | error e =>
    rw [order_of_endsOf_error hfound]
    exact fun f hf => some.inj hf ▸ hends e hfound
  | ok ids =>
    rw [order_of_endsOf hfound]
    exact notRefused_foldl (notRefused_visit (notRefused_sources nodesInfo g) _) ids notRefused_none

end Order

/-! ## Drawing up statements -/

def UnrefusedRun {α : Type} (x : Drafting α) : Prop := ∀ d, Unrefused (x.run d).1

section Steps

variable {α β : Type}

theorem unrefusedRun_check {result : Except Fault α} (h : Unrefused result) :
    UnrefusedRun (check result) := fun _ => h

theorem unrefusedRun_pure (a : α) : UnrefusedRun (pure a) := fun _ => unrefused_ok a

theorem unrefusedRun_get : UnrefusedRun (get : Drafting Draft) := fun d => unrefused_ok d

theorem unrefusedRun_modify (f : Draft → Draft) : UnrefusedRun (modify f : Drafting Unit) :=
  fun _ => unrefused_ok ()

theorem UnrefusedRun.bind {x : Drafting α} {f : α → Drafting β} (hx : UnrefusedRun x)
    (hf : ∀ a, UnrefusedRun (f a)) : UnrefusedRun (x >>= f) := by
  intro d
  have hresult := hx d
  -- a fault of the first step ends both, and otherwise the second one goes on from its draft
  rcases hrun : x.run d with ⟨e | a, d'⟩ <;> rw [hrun] at hresult
  · rw [run_bind_error hrun]
    exact unrefused_error (hresult e rfl)
  · rw [run_bind_ok hrun]
    exact hf a d'

theorem UnrefusedRun.foldlM {f : β → α → Drafting β} (hf : ∀ b a, UnrefusedRun (f b a))
    (items : List α) (b : β) : UnrefusedRun (items.foldlM f b) := by
  induction items generalizing b with
  | nil => exact unrefusedRun_pure b
  | cons a rest ih => exact (hf b a).bind ih

end Steps

section Arguments

theorem unrefused_itemsOf (v : Value) : Unrefused (itemsOf v) := by
  unfold itemsOf
  split <;> simp

theorem unrefused_sortOn {key : Value → Except Fault Value} (hkey : ∀ v, Unrefused (key v))
    (items : List Value) : Unrefused (sortOn key items) :=
  (Unrefused.mapM (fun v => (hkey v).bind fun _ => unrefused_ok _) items).bind fun keyed =>
    (unrefused_sortByKey keyed).bind fun _ => unrefused_ok _

variable (g : Graph)

theorem unrefused_placeOfInput (input : Value) : Unrefused (placeOfInput g input) := by
  refine (unrefused_field input _).bind fun link => ?_
  split
  · exact (g.unrefused_endOf link).bind fun _ => unrefused_ok _
  · simp

theorem unrefused_linkedArgument (input link : Value) : Unrefused (linkedArgument g input link) := by
  refine (g.unrefused_endOf link).bind fun edge => ?_
  split
  · simp
  split
  · exact (unrefused_field input _).bind fun _ => unrefused_ok _
  split
  · simp
  refine (unrefused_field _ _).bind fun outputs => (unrefused_item _ _).bind fun output =>
    (unrefused_field _ _).bind fun links => ?_
  split
  · simp
  refine (unrefused_field _ _).bind fun type => ?_
  have hsole : Unrefused (isSole links) := by
    unfold isSole
    split
    · simp
    · exact (unrefused_length _).bind fun _ => unrefused_ok _
  exact hsole.bind fun _ => unrefused_ok _

theorem unrefused_linkedArguments (inputs : List Value) (arguments : List (String × Argument)) :
    Unrefused (linkedArguments g inputs arguments) := by
  refine Unrefused.foldlM (fun arguments input => ?_) inputs arguments
  refine (unrefused_field input _).bind fun link => ?_
  split
  · simp
  · refine (unrefused_linkedArgument g input _).bind fun a => (unrefused_field input _).bind fun name => ?_
    unfold putArgument
    split <;> simp

theorem unrefusedRun_argumentsOf (nodesInfo id node type : Value) :
    UnrefusedRun (argumentsOf nodesInfo id node type) := by
  have hwidgets : Unrefused (widgetArguments nodesInfo node type) := by
    unfold widgetArguments
    split
    · simp
    · exact (unrefused_widgetValues nodesInfo type _).bind fun _ => unrefused_ok _
  refine (unrefusedRun_check hwidgets).bind fun arguments => ?_
  split
  · exact unrefusedRun_pure _
  · refine unrefusedRun_get.bind fun d => UnrefusedRun.bind (unrefusedRun_check ?_) fun inputs =>
      (unrefusedRun_modify _).bind fun _ => unrefusedRun_get.bind fun d' =>
        unrefusedRun_check (unrefused_linkedArguments _ _ _)
    exact (unrefused_itemsOf _).bind fun items => unrefused_sortOn (unrefused_placeOfInput _) items

end Arguments

section Targets

variable (node output : Value) (single : Bool)

theorem unrefusedRun_otherVariable (arguments : List Argument) :
    UnrefusedRun (otherVariable node output single arguments) := by
  have hname : Unrefused (suggestedName node output) := by
    refine (unrefused_field output _).bind fun name => ?_
    split
    · exact (unrefused_field output _).bind fun type => unrefused_nameOf type
    · exact (unrefused_add _ _).bind fun name => unrefused_nameOf name
  unfold otherVariable
  split
  · exact unrefusedRun_pure _
  · exact (unrefusedRun_check hname).bind fun name => unrefusedRun_get.bind fun d =>
      (unrefusedRun_modify _).bind fun _ => unrefusedRun_pure _

theorem unrefusedRun_chooseVariable (t : Targets) :
    UnrefusedRun (chooseVariable node output single t) := by
  have htwins : Unrefused (twinsOf t.arguments output) := by
    refine Unrefused.foldlM (fun found entry => ?_) _ _
    refine (unrefused_field output _).bind fun type => ?_
    split <;> simp
  have hother (t' : Targets) : UnrefusedRun (do
      return (← otherVariable node output single t.arguments, t')) :=
    (unrefusedRun_otherVariable node output single t.arguments).bind fun _ => unrefusedRun_pure _
  refine (unrefusedRun_check htwins).bind fun twins => ?_
  split
  · dsimp only
    split
    · exact unrefusedRun_check (unrefused_error rfl)
    · exact unrefusedRun_pure _
    · exact hother _
  · exact hother _

theorem unrefusedRun_assignOutputs (id : Value) (arguments : List Argument) :
    UnrefusedRun (assignOutputs id node arguments) := by
  have hrecord (slot : Value) (name : String) : UnrefusedRun (recordOutput id slot name) := by
    refine (unrefusedRun_modify _).bind fun _ => ?_
    split
    · exact unrefusedRun_check (unrefused_error rfl)
    · exact unrefusedRun_modify _
  have houtput (single : Bool) (t : Targets) (output : Value) (position : Nat) :
      UnrefusedRun (assignOutput id node single t output position) := by
    have hused : Unrefused (isUsed output) := by
      refine (unrefused_field output _).bind fun links => ?_
      split
      · simp
      · exact (unrefused_length _).bind fun _ => unrefused_ok _
    refine (unrefusedRun_check hused).bind fun used => ?_
    split
    · exact (unrefusedRun_chooseVariable node output single t).bind fun chosen =>
        (hrecord _ _).bind fun _ => unrefusedRun_pure _
    · exact unrefusedRun_pure _
  unfold assignOutputs
  split
  · exact unrefusedRun_pure _
  · refine UnrefusedRun.bind (unrefusedRun_check ?_) fun outputs =>
      (unrefusedRun_modify _).bind fun _ => UnrefusedRun.foldlM (fun t entry => houtput _ _ _ _) _ _
    exact (unrefused_itemsOf _).bind fun items => unrefused_sortOn (fun _ => unrefused_ok _) items

theorem unrefusedRun_sketch (nodesInfo id : Value) : UnrefusedRun (sketch nodesInfo id) := by
  have hdeclare (name : String) : UnrefusedRun (declareName name) := by
    refine unrefusedRun_get.bind fun d => ?_
    split
    · exact unrefusedRun_modify _
    · exact unrefusedRun_pure _
  unfold sketch
  exact unrefusedRun_get.bind fun d => (unrefusedRun_check (d.graph.unrefused_nodeOf id)).bind fun node =>
    (unrefusedRun_check (unrefused_field node _)).bind fun mode =>
    (unrefusedRun_check (unrefused_field node _)).bind fun type =>
    (unrefusedRun_check (unrefused_nameOf type)).bind fun name => (hdeclare _).bind fun _ =>
    (unrefusedRun_argumentsOf nodesInfo id node type).bind fun named =>
    (unrefusedRun_check (unrefused_positional nodesInfo type _ _)).bind fun arguments =>
    (unrefusedRun_assignOutputs node id arguments).bind fun _ => unrefusedRun_pure _

end Targets

theorem Transpiler.unrefused_resolveEnds (t : Transpiler) (ends : Value) :
    Unrefused (t.resolveEnds ends) := by
  unfold resolveEnds
  split
  · simp
  refine (unrefused_length _).bind fun length => ?_
  split
  · simp
  refine (unrefused_item _ _).bind fun first => (t.graph.unrefused_hasVertex first).bind fun known => ?_
  split
  · simp
  split
  · refine (unrefused_iterate _).bind fun items => ?_
    have hnumbers : Unrefused (items.mapM Value.whole) := Unrefused.mapM unrefused_whole items
    split
    · simp
    · simp
    next e _ he => exact unrefused_error (hnumbers e he)
  · exact (unrefused_iterate _).bind fun _ => unrefused_ok _
  · exact (unrefused_iterate _).bind fun _ => unrefused_ok _
  · simp

/-! ## Scripts -/

section Refused

variable {nodesInfo : Value} {d : Draft} {f : Fault}

theorem run_emit_refused_iff (hf : f.isRefusal = true) {id : Value} :
    ((emit nodesInfo id).run d).1 = .error f ↔ ∃ k d', (sketch nodesInfo id).run d = (.ok k, d') ∧
      contribute nodesInfo id k.node k.mode k.type k.callee k.named k.targets = .error f := by
  rw [emit_eq]
  constructor
  · intro h
    rcases hrun : (sketch nodesInfo id).run d with ⟨e | k, d'⟩
    · rw [run_bind_error hrun] at h
      have hsketch := unrefusedRun_sketch nodesInfo id d e (congrArg Prod.fst hrun)
      rw [Except.error.inj h, hf] at hsketch
      cases hsketch
    · rw [run_bind_ok hrun] at h
      exact ⟨k, d', rfl, h⟩
  · rintro ⟨k, d', hrun, hcontribute⟩
    rw [run_bind_ok hrun, run_check, hcontribute]

theorem run_emitAll_error {before : List Value} {id : Value} {cs : List Contribution} {d' : Draft}
    (hbefore : (Transpiler.emitAll nodesInfo before).run d = (.ok cs, d'))
    (hlast : ((emit nodesInfo id).run d').1 = .error f) (after : List Value) :
    ((Transpiler.emitAll nodesInfo (before ++ id :: after)).run d).1 = .error f := by
  induction before generalizing d cs with
  | nil =>
    -- nothing comes before, so the fault is that of the first statement
    obtain ⟨-, rfl⟩ := of_run_pure hbefore
    have hrun : (emit nodesInfo id).run d = (.error f, ((emit nodesInfo id).run d).2) := Prod.ext hlast rfl
    rw [nil_append, Transpiler.emitAll, run_bind_error hrun]
  | cons first before ih =>
    obtain ⟨c, d₁, cs', hfirst, hrest, -⟩ := of_run_emitAll_cons hbefore
    have hrun : (Transpiler.emitAll nodesInfo (before ++ id :: after)).run d₁ = (.error f, _) :=
      Prod.ext (ih hrest) rfl
    rw [cons_append, Transpiler.emitAll, run_bind_ok hfirst, run_bind_error hrun]

theorem of_run_emitAll_error {ids : List Value}
    (h : ((Transpiler.emitAll nodesInfo ids).run d).1 = .error f) : ∃ before id after cs d',
      ids = before ++ id :: after ∧ (Transpiler.emitAll nodesInfo before).run d = (.ok cs, d') ∧
        ((emit nodesInfo id).run d').1 = .error f := by
  induction ids generalizing d with
  | nil => cases h
  | cons id rest ih =>
    unfold Transpiler.emitAll at h
    rcases hemit : (emit nodesInfo id).run d with ⟨e | c, d₁⟩
    · rw [run_bind_error hemit] at h
      refine ⟨[], id, rest, [], d, rfl, rfl, ?_⟩
      rw [hemit, Except.error.inj h]
    · rw [run_bind_ok hemit] at h
      rcases hrest : (Transpiler.emitAll nodesInfo rest).run d₁ with ⟨e | cs, d₂⟩
      · rw [run_bind_error hrest] at h
        obtain ⟨before, id', after, cs, d', rfl, hbefore, hlast⟩ :=
          ih ((congrArg Prod.fst hrest).trans (congrArg Except.error (Except.error.inj h)))
        refine ⟨id :: before, id', after, c :: cs, d', rfl, ?_, hlast⟩
        rw [Transpiler.emitAll, run_bind_ok hemit, run_bind_ok hbefore]
        rfl
      · rw [run_bind_ok hrest] at h
        cases h

/-- In the order of statements the turn comes to a node after those of `before`, and its statement is
drawn up. -/
def TurnOf (nodesInfo : Value) (g : Graph) (order before : List Value) (id : Value) (k : Sketch) : Prop :=
  ∃ after cs d d', order = before ++ id :: after ∧
    (Transpiler.emitAll nodesInfo before).run ⟨g, []⟩ = (.ok cs, d) ∧
    (sketch nodesInfo id).run d = (.ok k, d')

theorem Transpiler.script_refused_iff {t : Transpiler} {ends : Value} {standalone : Bool}
    (hf : f.isRefusal = true) : (t.script ends standalone).1.script = .error f ↔
      ∃ log ends' before id k, t.resolveEnds ends = .ok (log, ends') ∧
        TurnOf t.nodesInfo t.graph (order t.nodesInfo t.graph ends').2.items before id k ∧
        contribute t.nodesInfo id k.node k.mode k.type k.callee k.named k.targets = .error f := by
  rw [script_eq]
  constructor
  · intro h
    cases hresolve : t.resolveEnds ends with
    | error e =>
      rw [contributionsFor, hresolve] at h
      have hends := t.unrefused_resolveEnds ends e hresolve
      rw [Except.error.inj h, hf] at hends
      cases hends
    | ok resolved =>
      obtain ⟨log, ends'⟩ := resolved
      rw [contributionsFor, hresolve, ok_bind] at h
      unfold contributions orFault at h
      dsimp only at h
      -- the fault is that of a statement, or else one that was met in the order
      split at h
      next e hrun =>
        rw [Except.map, Except.error.injEq] at h
        subst h
        obtain ⟨before, id, after, cs, d, hsplit, hbefore, hlast⟩ := of_run_emitAll_error hrun
        obtain ⟨k, d', hk, hcontribute⟩ := (run_emit_refused_iff hf).mp hlast
        exact ⟨log, ends', before, id, k, rfl, ⟨after, cs, d, d', hsplit, hbefore, hk⟩, hcontribute⟩
      next e _ hfault =>
        have horder := notRefused_order t.nodesInfo t.graph ends' e hfault
        rw [Except.error.inj h, hf] at horder
        cases horder
      · cases h
  · -- the statements before succeed, so the script gets as far as the refusal
    rintro ⟨log, ends', before, id, k, hresolve, ⟨after, cs, d, d', hsplit, hbefore, hk⟩, hcontribute⟩
    have hlast := (run_emit_refused_iff hf).mpr ⟨k, d', hk, hcontribute⟩
    have hrun := run_emitAll_error hbefore hlast after
    rw [contributionsFor, hresolve, ok_bind]
    unfold contributions
    dsimp only
    rw [hsplit, hrun]
    rfl

end Refused

end Workflow

end Flowscript
