import Flowscript.Workflow.Script
import Flowscript.Proofs.Table
import Flowscript.Proofs.Workflow.Elimination
import Mathlib.Data.List.Perm.Subperm

/-!
# What the steps of drafting do

A step of drafting takes names into use and records the variables of outputs in the graph. Both
only grow: this module says what a single step may add, from the names of a draft to the statement
of a whole node.
-/

namespace Flowscript.Workflow

variable {α : Type} {d d' : Draft} {a : Argument} {g : Graph} {id input node nodesInfo output type : Value}
  {name x : String} {u : Unit} {arg : String → Option α} {absent : α} {single : Bool} {t t' : Targets}
  {c : Contribution}

theorem run_check (result : Except Fault α) (d : Draft) : (check result).run d = (result, d) := rfl

theorem of_run_check {result : Except Fault α} {a : α} (h : (check result).run d = (.ok a, d')) :
    result = .ok a ∧ d = d' :=
  Prod.mk.inj h

theorem of_run_check_bind {β : Type} {result : Except Fault α} {f : α → Drafting β} {b : β}
    (h : (check result >>= f).run d = (.ok b, d')) : ∃ a, result = .ok a ∧ (f a).run d = (.ok b, d') := by
  obtain ⟨a, d₁, hrun, h⟩ := of_run_bind h
  obtain ⟨ha, rfl⟩ := of_run_check hrun
  exact ⟨a, ha, h⟩

/-! ## Names -/

theorem numberedName_not_mem_or (names : List String) (name : String) (fuel n : Nat) :
    numberedName names name fuel n ∉ names ∨
      ∀ k, n ≤ k → k < n + fuel → name ++ Value.intText k ∈ names := by
  induction fuel generalizing n with
  | zero => exact .inr fun k hle hlt => absurd hlt (by omega)
  | succ fuel ih =>
    unfold numberedName
    by_cases hc : names.contains (name ++ Value.intText n) = true
    · rw [if_pos hc]
      refine (ih (n + 1)).imp_right fun hall k hle hlt => ?_
      rcases Nat.eq_or_lt_of_le hle with rfl | hlt'
      · exact List.contains_iff_mem.mp hc
      · exact hall k hlt' (by omega)
    · rw [if_neg hc]
      exact .inl fun hmem => hc (List.contains_iff_mem.mpr hmem)

theorem numberedName_eq (names : List String) (name : String) (fuel n : Nat) :
    ∃ k : Nat, numberedName names name fuel n = name ++ Value.intText k := by
  induction fuel generalizing n with
  | zero => exact ⟨n, rfl⟩
  | succ fuel ih =>
    unfold numberedName
    by_cases hc : names.contains (name ++ Value.intText n) = true
    · rw [if_pos hc]
      exact ih (n + 1)
    · rw [if_neg hc]
      exact ⟨n, rfl⟩

theorem freshName_not_mem (names : List String) (name : String) : freshName names name ∉ names := by
  unfold freshName
  by_cases hc : names.contains name = true
  · rw [if_pos hc]
    refine (numberedName_not_mem_or names name (names.length + 1) 2).resolve_right fun hall => ?_
    have hinj : Function.Injective fun k : Nat => name ++ Value.intText ↑(k + 2) := by
      intro k l hkl
      have hnum := Value.intText_injective (String.append_right_inj name |>.mp hkl)
      omega
    have hsub : (List.range (names.length + 1)).map (fun k : Nat => name ++ Value.intText ↑(k + 2)) ⊆
        names := by
      intro x hx
      obtain ⟨k, hk, rfl⟩ := List.mem_map.mp hx
      exact_mod_cast hall (k + 2) (by omega) (by have := List.mem_range.mp hk; omega)
    have hlen := (List.subperm_of_subset (List.nodup_range.map hinj) hsub).length_le
    simp only [List.length_map, List.length_range] at hlen
    omega
  · rw [if_neg hc]
    exact fun hmem => hc (List.contains_iff_mem.mpr hmem)

/-! ## Records and names only grow -/

def Argument.name? : Argument → Option String
  | held name _ _ => some name
  | _ => none

@[simp]
theorem Argument.name?_keep (a : Argument) : a.keep.name? = a.name? := by
  cases a <;> rfl

def Graph.Records (g : Graph) (x : String) : Prop :=
  ∃ v ∈ g.vertices, ∃ ids, v.outputIds = some ids ∧ x ∈ ids.map Prod.snd

/-- The later draft keeps the names in use, and its new records are in `S`. -/
structure Draft.Extends (S : String → Prop) (d d' : Draft) : Prop where
  names : ∀ x ∈ d.names, x ∈ d'.names
  records : ∀ x, d'.graph.Records x → d.graph.Records x ∨ S x

namespace Draft.Extends

variable {S T : String → Prop} {d d' d'' : Draft}

theorem refl (S : String → Prop) (d : Draft) : Extends S d d := ⟨fun _ => id, fun _ => .inl⟩

theorem mono (h : Extends S d d') (hST : ∀ x, S x → T x) : Extends T d d' :=
  ⟨h.names, fun x hx => (h.records x hx).imp_right (hST x)⟩

theorem trans (h : Extends S d d') (h' : Extends S d' d'') : Extends S d d'' where
  names x hx := h'.names x (h.names x hx)
  records x hx := (h'.records x hx).elim (h.records x) .inr

end Draft.Extends

theorem Graph.records_modifyVertex (S : String → Prop) {f : Vertex → Vertex}
    (hf : ∀ v ids', (f v).outputIds = some ids' → ∀ x ∈ ids'.map Prod.snd,
      (∃ ids, v.outputIds = some ids ∧ x ∈ ids.map Prod.snd) ∨ S x)
    (h : (g.modifyVertex id f).Records x) : g.Records x ∨ S x := by
  obtain ⟨v', hv', ids', hids', hx⟩ := h
  obtain ⟨v, hv, rfl⟩ := List.mem_map.mp hv'
  by_cases hid : (v.id == id) = true
  · rw [if_pos hid] at hids'
    exact (hf v ids' hids' x hx).imp_left fun ⟨ids, hids, hmem⟩ => ⟨v, hv, ids, hids, hmem⟩
  · rw [if_neg hid] at hids'
    exact .inl ⟨v, hv, ids', hids', hx⟩

theorem extends_useName (h : (useName name).run d = (.ok u, d')) :
    d.Extends (fun _ => False) d' ∧ name ∈ d'.names := by
  cases h
  exact ⟨⟨fun x hx => List.mem_append_left _ hx, fun x => .inl⟩, by simp⟩

theorem extends_declareName (h : (declareName name).run d = (.ok u, d')) :
    d.Extends (fun _ => False) d' := by
  unfold declareName at h
  rw [run_bind_ok (run_get d)] at h
  split at h
  · exact (extends_useName h).1
  · obtain ⟨-, rfl⟩ := of_run_pure h
    exact .refl _ _

theorem extends_assignName (h : (assignName name).run d = (.ok x, d')) :
    d.Extends (fun _ => False) d' ∧ x ∉ d.names ∧ x ∈ d'.names := by
  unfold assignName at h
  rw [run_bind_ok (run_get d)] at h
  obtain ⟨u, d₁, huse, hpure⟩ := of_run_bind h
  obtain ⟨rfl, rfl⟩ := of_run_pure hpure
  obtain ⟨hext, hmem⟩ := extends_useName huse
  exact ⟨hext, freshName_not_mem d.names name, hmem⟩

theorem extends_writeField {value : Value} (h : (writeField id name value).run d = (.ok u, d')) :
    d.Extends (fun _ => False) d' := by
  cases h
  refine ⟨fun _ hx => hx, fun x hx => Graph.records_modifyVertex (fun _ => False) ?_ hx⟩
  exact fun v ids hids y hy => .inl ⟨ids, hids, hy⟩

theorem extends_recordOutput {slot : Value} (h : (recordOutput id slot name).run d = (.ok u, d')) :
    d.Extends (· = name) d' := by
  unfold recordOutput at h
  obtain ⟨_, d₁, hopen, hput⟩ := of_run_bind h
  have hopened : d.Extends (· = name) d₁ := by
    cases hopen
    refine ⟨fun _ hx => hx, fun x => Graph.records_modifyVertex (· = name) fun v ids hids y hy => ?_⟩
    cases hv : v.outputIds with
    | none =>
      simp only [hv, Option.getD_none, Option.some.injEq] at hids
      simp [← hids] at hy
    | some old =>
      simp only [hv, Option.getD_some, Option.some.injEq] at hids
      exact .inl ⟨old, rfl, hids ▸ hy⟩
  split at hput
  · cases hput
  · refine hopened.trans ?_
    cases hput
    refine ⟨fun _ hx => hx, fun x => Graph.records_modifyVertex (· = name) fun v ids hids y hy => ?_⟩
    obtain ⟨old, hold, rfl⟩ := Option.map_eq_some_iff.mp hids
    obtain ⟨entry, hentry, rfl⟩ := List.mem_map.mp hy
    exact (Table.mem_put hentry).imp_left fun hmem => ⟨old, hold, List.mem_map_of_mem hmem⟩

/-! ## Arguments read records -/

theorem linkedArgument_cases {link : Value} (h : linkedArgument g input link = .ok a) :
    ∃ e v, g.endOf link = .ok e ∧ g.vertex? e.source = some v ∧
      (v.outputIds = none ∧ (∃ type, a = .hole type) ∨ ∃ ids name type mayMove, v.outputIds = some ids ∧
        Table.find? e.sourceSlot ids = some name ∧ a = .held name type mayMove) := by
  obtain ⟨e, he, h⟩ := ok_of_bind h
  refine ⟨e, ?_⟩
  split at h
  · cases h
  next v hv =>
    refine ⟨v, he, hv, ?_⟩
    split at h
    next hnone =>
      obtain ⟨type, -, h⟩ := ok_of_bind h
      exact .inl ⟨hnone, type, (Except.ok.inj h).symm⟩
    next ids hids =>
      split at h
      · cases h
      · obtain ⟨outputs, -, h⟩ := ok_of_bind h
        obtain ⟨output, -, h⟩ := ok_of_bind h
        obtain ⟨links, -, h⟩ := ok_of_bind h
        split at h
        · cases h
        next name hname =>
          obtain ⟨type, -, h⟩ := ok_of_bind h
          obtain ⟨mayMove, -, h⟩ := ok_of_bind h
          exact .inr ⟨ids, name, type, mayMove, hids, hname, (Except.ok.inj h).symm⟩

theorem records_linkedArgument {link : Value} (h : linkedArgument g input link = .ok a)
    (hx : a.name? = some x) : g.Records x := by
  obtain ⟨e, v, -, hv, ⟨-, type, rfl⟩ | ⟨ids, name, type, mayMove, hids, hname, rfl⟩⟩ :=
    linkedArgument_cases h
  · cases hx
  · cases hx
    obtain ⟨k, hk, -⟩ := Table.exists_of_find? hname
    exact ⟨v, List.mem_of_find?_eq_some hv, ids, hids, List.mem_map_of_mem hk⟩

def ReadsRecords (g : Graph) (arguments : List (String × Argument)) : Prop :=
  ∀ entry ∈ arguments, ∀ x, entry.2.name? = some x → g.Records x

theorem readsRecords_putLinked {arguments arguments' : List (String × Argument)}
    (hr : ReadsRecords g arguments) (h : putLinked g arguments input = .ok arguments') :
    ReadsRecords g arguments' := by
  unfold putLinked at h
  obtain ⟨link, -, h⟩ := ok_of_bind h
  split at h
  · exact Except.ok.inj h ▸ hr
  · obtain ⟨a, ha, h⟩ := ok_of_bind h
    obtain ⟨name, -, h⟩ := ok_of_bind h
    unfold putArgument at h
    split at h
    · cases h
    · cases h
      intro entry hentry x hx
      split at hentry
      · rcases Table.mem_put hentry with hold | hnew
        · exact hr entry hold x hx
        · exact records_linkedArgument ha (hnew ▸ hx)
      · exact hr entry hentry x hx

theorem readsRecords_widgetArguments (g : Graph) {arguments : List (String × Argument)}
    (h : widgetArguments nodesInfo node type = .ok arguments) : ReadsRecords g arguments := by
  unfold widgetArguments at h
  split at h
  · cases h
    exact fun entry hentry => absurd hentry List.not_mem_nil
  · obtain ⟨widgets, -, h⟩ := ok_of_bind h
    cases h
    intro entry hentry x hx
    obtain ⟨widget, -, rfl⟩ := List.mem_map.mp hentry
    cases hx

theorem extends_argumentsOf {named : List (String × Argument)}
    (h : (argumentsOf nodesInfo id node type).run d = (.ok named, d')) :
    d.Extends (fun _ => False) d' ∧ ReadsRecords d.graph named := by
  unfold argumentsOf at h
  obtain ⟨arguments, hwidgets, h⟩ := of_run_check_bind h
  split at h
  · obtain ⟨rfl, rfl⟩ := of_run_pure h
    exact ⟨.refl _ _, readsRecords_widgetArguments d.graph hwidgets⟩
  · rw [run_bind_ok (run_get d)] at h
    obtain ⟨inputs, -, h⟩ := of_run_check_bind h
    obtain ⟨_, d₁, hwrite, h⟩ := of_run_bind h
    rw [run_bind_ok (run_get d₁)] at h
    obtain ⟨hlinked, rfl⟩ := of_run_check h
    have hext := extends_writeField hwrite
    have hread : ReadsRecords d₁.graph named :=
      foldlM_invariant (ReadsRecords d₁.graph)
        (fun b input _ b' hb hput => readsRecords_putLinked hb hput)
        (readsRecords_widgetArguments d₁.graph hwidgets) hlinked
    exact ⟨hext, fun entry hentry x hx =>
      (hext.records x (hread entry hentry x hx)).resolve_right not_false⟩

def AllGiven (arg : String → Option α) (absent : α) (all : List α) : Prop :=
  ∀ a ∈ all, a = absent ∨ ∃ name, arg name = some a

theorem allGiven_appendInput {all all' : List α} (hall : AllGiven arg absent all)
    (h : appendInput arg absent all input = .ok all') : AllGiven arg absent all' := by
  unfold appendInput at h
  split at h
  · cases h
    intro a ha
    rcases List.mem_append.mp ha with hold | hnew
    · exact hall a hold
    · rw [List.mem_singleton] at hnew
      cases harg : input.text?.bind arg with
      | none => exact .inl (by rw [hnew, harg, Option.getD_none])
      | some b =>
        obtain ⟨name, -, hname⟩ := Option.bind_eq_some_iff.mp harg
        exact .inr ⟨name, by rw [hnew, harg, Option.getD_some, hname]⟩
  · cases h

theorem allGiven_appendGroup {types : Value} {all all' : List α} (hall : AllGiven arg absent all)
    (h : appendGroup arg absent types all name = .ok all') : AllGiven arg absent all' := by
  unfold appendGroup at h
  obtain ⟨found, -, h⟩ := ok_of_bind h
  split at h
  · exact Except.ok.inj h ▸ hall
  · exact Except.ok.inj h ▸ hall
  · obtain ⟨items, -, h⟩ := ok_of_bind h
    exact foldlM_invariant (AllGiven arg absent)
      (fun all input _ all' hall hstep => allGiven_appendInput hall hstep) hall h

theorem allGiven_positional {arguments : List α} (h : positional nodesInfo type arg absent = .ok arguments) :
    AllGiven arg absent arguments := by
  obtain ⟨types, -, h⟩ := ok_of_bind h
  exact foldlM_invariant (AllGiven arg absent)
    (fun all name _ all' hall hstep => allGiven_appendGroup hall hstep)
    (fun a ha => absurd ha List.not_mem_nil) h

/-! ## Outputs take variables of arguments or fresh ones -/

def variablesOf (arguments : List Argument) : List String :=
  arguments.filterMap Argument.name?

section Arguments

variable {arguments : List Argument}

theorem mem_variablesOf (ha : a ∈ arguments) (hx : a.name? = some x) :
    x ∈ variablesOf arguments :=
  List.mem_filterMap.mpr ⟨a, ha, hx⟩

theorem variablesOf_modify_keep (arguments : List Argument) (i : Nat) :
    variablesOf (arguments.modify i Argument.keep) = variablesOf arguments := by
  unfold variablesOf
  induction arguments generalizing i with
  | nil => cases i <;> rfl
  | cons a rest ih =>
    cases i with
    | zero => simp [List.filterMap_cons]
    | succ i => rw [List.modify_succ_cons, List.filterMap_cons, List.filterMap_cons, ih]

theorem Argument.text_of_any (h : (a.type == .str "*") = true) :
    a.text = "_" ∨ a.name? = some a.text := by
  cases a with
  | widget v => cases h
  | hole type => exact .inl rfl
  | held name type mayMove => exact .inr rfl
  | absent => cases h

theorem mem_of_mem_twinsOf {twins : List (Nat × Argument)}
    (h : twinsOf arguments output = .ok twins) :
    ∀ twin ∈ twins, twin.2 ∈ arguments := by
  unfold twinsOf at h
  refine foldlM_invariant (fun found => ∀ twin ∈ found, twin.2 ∈ arguments)
    (fun found entry hentry found' hfound hstep => ?_)
    (fun twin htwin => absurd htwin List.not_mem_nil) h
  obtain ⟨type, -, hstep⟩ := ok_of_bind hstep
  split at hstep
  · cases hstep
    intro twin htwin
    rcases List.mem_append.mp htwin with hold | hnew
    · exact hfound twin hold
    · rw [List.mem_singleton.mp hnew]
      exact (List.mem_zipIdx' hentry).2 ▸ List.getElem_mem _
  · exact Except.ok.inj hstep ▸ hfound

theorem extends_otherVariable
    (h : (otherVariable node output single arguments).run d = (.ok x, d')) :
    d.Extends (fun _ => False) d' ∧
      (x = "_" ∨ x ∈ variablesOf arguments ∨ x ∉ d.names ∧ x ∈ d'.names) := by
  unfold otherVariable at h
  split at h
  next a hany =>
    obtain ⟨rfl, rfl⟩ := of_run_pure h
    have ha : a ∈ arguments.filter fun a => a.type == .str "*" := hany ▸ List.mem_singleton_self a
    obtain ⟨hmem, htype⟩ := List.mem_filter.mp ha
    refine ⟨.refl _ _, (Argument.text_of_any htype).imp_right fun hx => ?_⟩
    exact .inl (mem_variablesOf hmem hx)
  · obtain ⟨name, -, h⟩ := of_run_check_bind h
    obtain ⟨hext, hx⟩ := extends_assignName h
    exact ⟨hext, .inr (.inr hx)⟩

/-- The outputs named so far: their names come from the arguments or were not in use before, and
only they are recorded. -/
structure Targets.Follows (arguments : List Argument) (before d : Draft) (t : Targets) : Prop where
  reads : variablesOf t.arguments = variablesOf arguments
  twins : ∀ x ∈ variablesOf t.twins, x ∈ variablesOf arguments
  names : ∀ x ∈ t.names,
    x = "_" ∨ x ∈ variablesOf arguments ∨ x ∉ before.names ∧ x ∈ d.names
  grows : before.Extends (· ∈ t.names) d

/-- A variable is taken over from the only twin, or chosen apart from the twins. -/
theorem chooseVariable_cases (h : (chooseVariable node output single t).run d = (.ok (x, t'), d')) :
    ∃ twins, twinsOf t.arguments output = .ok twins ∧
      ((∃ i a, twins = [(i, a)] ∧ a.mayMove? = some true ∧ x = a.text ∧ d' = d ∧
          t' = { t with arguments := t.arguments.modify i Argument.keep, twins := t.twins ++ [a] }) ∨
        (otherVariable node output single t.arguments).run d = (.ok x, d') ∧
          ((∃ i a, twins = [(i, a)] ∧ a.mayMove? = some false ∧ t' = { t with twins := t.twins ++ [a] }) ∨
            (∀ i a, twins ≠ [(i, a)]) ∧ t' = t)) := by
  obtain ⟨twins, htwins, h⟩ := of_run_check_bind h
  refine ⟨twins, htwins, ?_⟩
  split at h
  next i a =>
    split at h
    · cases h
    next hmove =>
      obtain ⟨⟨⟩, rfl⟩ := of_run_pure h
      exact .inl ⟨i, a, rfl, hmove, rfl, rfl, rfl⟩
    next hmove =>
      obtain ⟨y, d₁, hother, h⟩ := of_run_bind h
      obtain ⟨⟨⟩, rfl⟩ := of_run_pure h
      exact .inr ⟨hother, .inl ⟨i, a, rfl, hmove, rfl⟩⟩
  next hnot =>
    obtain ⟨y, d₁, hother, h⟩ := of_run_bind h
    obtain ⟨⟨⟩, rfl⟩ := of_run_pure h
    exact .inr ⟨hother, .inr ⟨fun i a e => hnot i a e, rfl⟩⟩

theorem chooseVariable_spec (h : (chooseVariable node output single t).run d = (.ok (x, t'), d')) :
    d.Extends (fun _ => False) d' ∧ t'.names = t.names ∧
      variablesOf t'.arguments = variablesOf t.arguments ∧
      (∀ y ∈ variablesOf t'.twins, y ∈ variablesOf t.twins ∨ y ∈ variablesOf t.arguments) ∧
      (x = "_" ∨ x ∈ variablesOf t.arguments ∨ x ∉ d.names ∧ x ∈ d'.names) := by
  obtain ⟨twins, htwins, hcases⟩ := chooseVariable_cases h
  have hadded {i : Nat} {a : Argument} (htwin : twins = [(i, a)]) : a ∈ t.arguments ∧
      ∀ y ∈ variablesOf (t.twins ++ [a]), y ∈ variablesOf t.twins ∨ y ∈ variablesOf t.arguments := by
    have ha : a ∈ t.arguments := mem_of_mem_twinsOf htwins (i, a) (htwin ▸ List.mem_cons_self)
    refine ⟨ha, fun y hy => ?_⟩
    obtain ⟨b, hb, hvar⟩ := List.mem_filterMap.mp hy
    rcases List.mem_append.mp hb with hold | hnew
    · exact .inl (mem_variablesOf hold hvar)
    · exact .inr (mem_variablesOf (List.mem_singleton.mp hnew ▸ ha) hvar)
  rcases hcases with ⟨i, a, htwin, hmove, rfl, rfl, rfl⟩ | ⟨hother, hcases⟩
  · have hvar : a.name? = some a.text := by
      cases a <;> first | rfl | cases hmove
    exact ⟨.refl _ _, rfl, variablesOf_modify_keep _ _, (hadded htwin).2,
      .inr (.inl (mem_variablesOf (hadded htwin).1 hvar))⟩
  · obtain ⟨hext, hx⟩ := extends_otherVariable hother
    rcases hcases with ⟨i, a, htwin, -, rfl⟩ | ⟨-, rfl⟩
    · exact ⟨hext, rfl, rfl, (hadded htwin).2, hx⟩
    · exact ⟨hext, rfl, rfl, fun y hy => .inl hy, hx⟩

theorem assignOutput_cases {position : Nat}
    (h : (assignOutput id node single t output position).run d = (.ok t', d')) :
    isUsed output = .ok false ∧ t' = { t with names := t.names ++ ["_"] } ∧ d' = d ∨
      isUsed output = .ok true ∧ ∃ x t₁ d₁, (chooseVariable node output single t).run d = (.ok (x, t₁), d₁) ∧
        (recordOutput id (slotOf output single position) x).run d₁ = (.ok (), d') ∧
        t' = { t₁ with names := t₁.names ++ [x], used := true } := by
  obtain ⟨used, hused, h⟩ := of_run_check_bind h
  cases used with
  | false =>
    obtain ⟨rfl, rfl⟩ := of_run_pure h
    exact .inl ⟨hused, rfl, rfl⟩
  | true =>
    obtain ⟨⟨x, t₁⟩, d₁, hchoose, h⟩ := of_run_bind h
    obtain ⟨_, d₂, hrecord, h⟩ := of_run_bind h
    obtain ⟨rfl, rfl⟩ := of_run_pure h
    exact .inr ⟨hused, x, t₁, d₁, hchoose, hrecord, rfl⟩

theorem itemsOf_eq_ok_iff {v : Value} {items : List Value} : itemsOf v = .ok items ↔ v = .list items := by
  unfold itemsOf
  split
  · simp
  next hnot => simpa using hnot items

theorem assignOutputs_cases (h : (assignOutputs id node arguments).run d = (.ok t, d')) :
    node.field? "outputs" = none ∧ t = ⟨arguments, [], [], false⟩ ∧ d' = d ∨
      ∃ items sorted, node.field? "outputs" = some (.list items) ∧
        sortOn (fun o => .ok (placeOfOutput o)) items = .ok sorted ∧
        (sorted.zipIdx.foldlM (fun t entry => assignOutput id node (sorted.length == 1) t entry.1 entry.2)
          ⟨arguments, [], [], false⟩).run { d with graph := d.graph.modifyVertex id fun x =>
            { x with node := x.node.map (setField "outputs" (.list sorted)) } } = (.ok t, d') := by
  unfold assignOutputs at h
  split at h
  next hnone =>
    obtain ⟨rfl, rfl⟩ := of_run_pure h
    exact .inl ⟨hnone, rfl, rfl⟩
  next hfield =>
    obtain ⟨sorted, hsort, hrun⟩ := of_run_check_bind h
    obtain ⟨items, hitems, hsorted⟩ := ok_of_bind hsort
    rw [itemsOf_eq_ok_iff.mp hitems] at hfield
    exact .inr ⟨items, sorted, hfield, hsorted, hrun⟩

theorem follows_assignOutput {before : Draft} {position : Nat}
    (hf : t.Follows arguments before d)
    (h : (assignOutput id node single t output position).run d = (.ok t', d')) :
    t'.Follows arguments before d' := by
  obtain ⟨-, rfl, rfl⟩ | ⟨-, x, t₁, d₁, hchoose, hrecord, rfl⟩ := assignOutput_cases h
  · refine ⟨hf.reads, hf.twins, fun y hy => ?_,
      hf.grows.mono fun y hy => List.mem_append_left _ hy⟩
    rcases List.mem_append.mp hy with hold | hnew
    · exact hf.names y hold
    · exact .inl (List.mem_singleton.mp hnew)
  · obtain ⟨hext, hnames, harguments, htwins, hx⟩ := chooseVariable_spec hchoose
    have hrecorded := extends_recordOutput hrecord
    have hlater : ∀ y ∈ d.names, y ∈ d'.names := fun y hy => hrecorded.names y (hext.names y hy)
    refine ⟨harguments.trans hf.reads, fun y hy => ?_, fun y hy => ?_, ?_⟩
    · exact (htwins y hy).elim (hf.twins y) fun hy => hf.reads ▸ hy
    · rcases List.mem_append.mp hy with hold | hnew
      · exact (hf.names y (hnames ▸ hold)).imp_right fun hy =>
          hy.imp_right fun ⟨hnot, hin⟩ => ⟨hnot, hlater y hin⟩
      · rw [List.mem_singleton.mp hnew, ← hf.reads]
        exact hx.imp_right fun hx => hx.imp_right fun ⟨hnot, hin⟩ =>
          ⟨fun hin' => hnot (hf.grows.names x hin'), hrecorded.names x hin⟩
    · refine (hf.grows.mono fun y hy => ?_).trans
        ((hext.mono fun y hy => hy.elim).trans (hrecorded.mono fun y hy => ?_))
      · exact List.mem_append_left _ (hnames.symm ▸ hy)
      · exact List.mem_append_right _ (List.mem_singleton.mpr hy)

theorem follows_assignOutputs (h : (assignOutputs id node arguments).run d = (.ok t, d')) :
    t.Follows arguments d d' := by
  have hstart (d₁ : Draft) (hext : d.Extends (fun _ => False) d₁) :
      (⟨arguments, [], [], false⟩ : Targets).Follows arguments d d₁ :=
    ⟨rfl, fun x hx => absurd hx List.not_mem_nil, fun x hx => absurd hx List.not_mem_nil,
      hext.mono fun _ hx => hx.elim⟩
  obtain ⟨-, rfl, rfl⟩ | ⟨items, sorted, -, -, hrun⟩ := assignOutputs_cases h
  · exact hstart d' (.refl _ d')
  · exact of_run_foldlM (fun _ t d' => t.Follows arguments d d')
      (fun _ entry _ t d₂ t' d₃ _ hf hstep => follows_assignOutput hf hstep)
      (hstart _ (extends_writeField rfl)) hrun

end Arguments

/-! ## Statements before the passes -/

def declare (name : String) (names : List String) : List String :=
  if names.contains name then names else names ++ [name]

theorem run_declareName_eq (name : String) (g : Graph) (names : List String) :
    (declareName name).run ⟨g, names⟩ = (.ok (), ⟨g, declare name names⟩) := by
  unfold declareName declare
  rw [run_bind_ok (run_get _)]
  cases names.contains name <;> rfl

theorem mem_declare_iff {names : List String} :
    x ∈ declare name names ↔ x ∈ names ∨ x = name := by
  unfold declare
  split
  next hc =>
    refine ⟨.inl, ?_⟩
    rintro (h | rfl)
    · exact h
    · exact List.contains_iff_mem.mp hc
  · rw [List.mem_append, List.mem_singleton]

structure Sketch where
  node : Value
  mode : Value
  type : Value
  callee : String
  named : List (String × Argument)
  targets : Targets

def sketch (nodesInfo id : Value) : Drafting Sketch := do
  let node ← check ((← get).graph.nodeOf id)
  let mode ← check (node.field "mode")
  let type ← check (node.field "type")
  let callee := Identifier.classId (← check (Identifier.nameOf type))
  declareName callee
  let named ← argumentsOf nodesInfo id node type
  let arguments ← check (positional nodesInfo type (fun name => Table.find? name named) .absent)
  let targets ← assignOutputs id node arguments
  return ⟨node, mode, type, callee, named, targets⟩

theorem emit_eq (nodesInfo id : Value) : emit nodesInfo id = sketch nodesInfo id >>= fun k =>
    check (contribute nodesInfo id k.node k.mode k.type k.callee k.named k.targets) := by
  simp only [emit, sketch, bind_assoc, pure_bind]

theorem of_run_emit (h : (emit nodesInfo id).run d = (.ok c, d')) :
    ∃ k, (sketch nodesInfo id).run d = (.ok k, d') ∧
      contribute nodesInfo id k.node k.mode k.type k.callee k.named k.targets = .ok c := by
  rw [emit_eq] at h
  obtain ⟨k, d₁, hk, h⟩ := of_run_bind h
  obtain ⟨hcontribute, rfl⟩ := of_run_check h
  exact ⟨k, hk, hcontribute⟩

theorem of_run_sketch_steps {k : Sketch} (h : (sketch nodesInfo id).run d = (.ok k, d')) :
    ∃ name arguments d₁, d.graph.nodeOf id = .ok k.node ∧ k.node.field "mode" = .ok k.mode ∧
      k.node.field "type" = .ok k.type ∧ Identifier.nameOf k.type = .ok name ∧
      k.callee = Identifier.classId name ∧
      (argumentsOf nodesInfo id k.node k.type).run ⟨d.graph, declare k.callee d.names⟩ =
        (.ok k.named, d₁) ∧
      positional nodesInfo k.type (fun name => Table.find? name k.named) .absent = .ok arguments ∧
      (assignOutputs id k.node arguments).run d₁ = (.ok k.targets, d') := by
  unfold sketch at h
  rw [run_bind_ok (run_get d)] at h
  obtain ⟨node, hnode, h⟩ := of_run_check_bind h
  obtain ⟨mode, hmode, h⟩ := of_run_check_bind h
  obtain ⟨type, htype, h⟩ := of_run_check_bind h
  obtain ⟨name, hname, h⟩ := of_run_check_bind h
  rw [run_bind_ok (run_declareName_eq _ _ _)] at h
  obtain ⟨named, d₂, hnamed, h⟩ := of_run_bind h
  obtain ⟨arguments, harguments, h⟩ := of_run_check_bind h
  obtain ⟨targets, d₃, htargets, h⟩ := of_run_bind h
  obtain ⟨rfl, rfl⟩ := of_run_pure h
  refine ⟨name, arguments, d₂, ?_⟩
  dsimp only
  exact ⟨hnode, hmode, htype, hname, rfl, hnamed, harguments, htargets⟩

/-! ## Statements -/

def Expression.arguments : Expression → List Argument
  | call _ arguments => arguments
  | move sources => sources

def Contribution.inputs (c : Contribution) : List String := variablesOf c.targets.arguments

def Contribution.reads (c : Contribution) : List String :=
  (c.statement.map fun s => variablesOf s.expression.arguments).getD []

/-- The line of a contribution is that of its statement, or the literal that it holds, or is
dropped. -/
def Contribution.IsWritten (c : Contribution) : Prop :=
  c.line = "" ∨ ∃ s, c.statement = some s ∧ (c.line = s.text ∨ literalOf? s.text = some c.line)

theorem statementOf_spec {mode : Value} {callee : String} {s : Statement}
    (h : statementOf mode callee t = some s) :
    s.targets = t.names ∧ (s.expression.arguments = t.arguments ∨ s.expression.arguments = t.twins) := by
  unfold statementOf at h
  split at h
  · split at h
    · cases h
      exact ⟨rfl, .inr rfl⟩
    · cases h
  · cases h
    exact ⟨rfl, .inl rfl⟩

theorem contribute_spec {mode : Value} {callee : String} {named : List (String × Argument)}
    (h : contribute nodesInfo id node mode type callee named t = .ok c) :
    c.node = id ∧ c.targets = t ∧ c.statement = statementOf mode callee t ∧ c.IsWritten := by
  unfold contribute at h
  split at h
  next hs =>
    cases h
    exact ⟨rfl, rfl, hs.symm, .inl rfl⟩
  next s hs =>
    obtain ⟨choice, -, h⟩ := ok_of_bind h
    obtain ⟨line, hline, h⟩ := ok_of_bind h
    cases h
    exact ⟨rfl, rfl, hs.symm, (eliminate_cases hline).imp_right fun hline =>
      ⟨s, rfl, hline.imp_right And.right⟩⟩

/-- A node is given variables that were recorded, its outputs take these or new ones, and its
statement reads what the node is given. -/
structure Contribution.Continues (c : Contribution) (d d' : Draft) : Prop where
  inputs : ∀ x ∈ c.inputs, d.graph.Records x
  names : ∀ x ∈ c.targets.names, x = "_" ∨ x ∈ c.inputs ∨ x ∉ d.names ∧ x ∈ d'.names
  grows : d.Extends (· ∈ c.targets.names) d'
  targets : ∀ s, c.statement = some s → s.targets = c.targets.names
  reads : ∀ x ∈ c.reads, x ∈ c.inputs
  written : c.IsWritten

theorem continues_emit (h : (emit nodesInfo id).run d = (.ok c, d')) :
    c.Continues d d' := by
  obtain ⟨k, hk, hcontribute⟩ := of_run_emit h
  obtain ⟨name, arguments, d₁, -, -, -, -, -, hnamed, harguments, htargets⟩ := of_run_sketch_steps hk
  obtain ⟨-, hk, hstatement, hwritten⟩ := contribute_spec hcontribute
  rw [← hk] at hstatement htargets
  have hdeclared := extends_declareName (run_declareName_eq k.callee d.graph d.names)
  obtain ⟨hext, hread⟩ := extends_argumentsOf hnamed
  have hbefore : d.Extends (fun _ => False) d₁ := hdeclared.trans hext
  have hf := follows_assignOutputs htargets
  refine ⟨fun x hx => ?_, fun x hx => ?_, (hbefore.mono fun _ hx => hx.elim).trans hf.grows,
    fun s hs => (statementOf_spec (hstatement ▸ hs)).1, fun x hx => ?_, hwritten⟩
  · rw [Contribution.inputs, hf.reads] at hx
    obtain ⟨a, ha, hvar⟩ := List.mem_filterMap.mp hx
    rcases allGiven_positional harguments a ha with rfl | ⟨name, hname⟩
    · cases hvar
    · have hrec := hread (name, a) (Table.mem_of_find? hname) x hvar
      exact (hdeclared.records x hrec).resolve_right not_false
  · rw [Contribution.inputs, hf.reads]
    exact (hf.names x hx).imp_right fun hx => hx.imp_right fun ⟨hnot, hin⟩ =>
      ⟨fun hin' => hnot (hbefore.names x hin'), hin⟩
  · rw [Contribution.inputs, hf.reads]
    unfold Contribution.reads at hx
    cases hs : c.statement with
    | none => simp [hs] at hx
    | some s =>
      rw [hs, Option.map_some, Option.getD_some] at hx
      rcases (statementOf_spec (hstatement ▸ hs)).2 with harg | harg
      · exact hf.reads ▸ harg ▸ hx
      · exact hf.twins x (harg ▸ hx)

/-! ## Sequences of statements -/

theorem of_run_emitAll_cons {ids : List Value} {cs : List Contribution}
    (h : (Transpiler.emitAll nodesInfo (id :: ids)).run d = (.ok cs, d')) :
    ∃ c d₁ later, (emit nodesInfo id).run d = (.ok c, d₁) ∧
      (Transpiler.emitAll nodesInfo ids).run d₁ = (.ok later, d') ∧ cs = c :: later := by
  unfold Transpiler.emitAll at h
  obtain ⟨c, d₁, hemit, h⟩ := of_run_bind h
  obtain ⟨later, d₂, hlater, h⟩ := of_run_bind h
  obtain ⟨rfl, rfl⟩ := of_run_pure h
  exact ⟨c, d₁, later, hemit, hlater, rfl⟩

/-- What every statement preserves, given the statements before it, the script preserves. -/
theorem of_run_emitAll (P : List Contribution → Draft → Prop)
    (hstep : ∀ {earlier d id c d'}, P earlier d → (emit nodesInfo id).run d = (.ok c, d') →
      P (earlier ++ [c]) d')
    {ids : List Value} (earlier : List Contribution) {cs : List Contribution} (hd : P earlier d)
    (h : (Transpiler.emitAll nodesInfo ids).run d = (.ok cs, d')) : P (earlier ++ cs) d' := by
  induction ids generalizing earlier cs d with
  | nil =>
    obtain ⟨rfl, rfl⟩ := of_run_pure h
    rwa [List.append_nil]
  | cons id rest ih =>
    obtain ⟨c, d₁, later, hemit, hlater, rfl⟩ := of_run_emitAll_cons h
    rw [List.append_cons]
    exact ih _ (hstep hd hemit) hlater

theorem of_run_emitAll_split {ids : List Value} {cs earlier later : List Contribution}
    (h : (Transpiler.emitAll nodesInfo ids).run d = (.ok cs, d')) (hsplit : cs = earlier ++ c :: later) :
    ∃ before id after d₁ d₂, ids = before ++ id :: after ∧
      (Transpiler.emitAll nodesInfo before).run d = (.ok earlier, d₁) ∧
      (emit nodesInfo id).run d₁ = (.ok c, d₂) ∧
      (Transpiler.emitAll nodesInfo after).run d₂ = (.ok later, d') := by
  induction ids generalizing cs d earlier with
  | nil =>
    obtain ⟨rfl, -⟩ := of_run_pure h
    simp at hsplit
  | cons id rest ih =>
    obtain ⟨first, d₁, cs', hemit, hrest, rfl⟩ := of_run_emitAll_cons h
    cases earlier with
    | nil =>
      obtain ⟨rfl, rfl⟩ := List.cons.inj hsplit
      exact ⟨[], id, rest, d, d₁, rfl, rfl, hemit, hrest⟩
    | cons b earlier =>
      obtain ⟨rfl, htail⟩ := List.cons.inj hsplit
      obtain ⟨before, id', after, d₃, d₄, rfl, hbefore, hemit', hafter⟩ := ih hrest htail
      refine ⟨id :: before, id', after, d₃, d₄, rfl, ?_, hemit', hafter⟩
      unfold Transpiler.emitAll
      rw [run_bind_ok hemit, run_bind_ok hbefore]
      rfl

end Flowscript.Workflow
