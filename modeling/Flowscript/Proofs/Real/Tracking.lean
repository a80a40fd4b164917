import Flowscript.Real.Load
import Flowscript.Proofs.Agreement
import Flowscript.Proofs.Session.Arguments

/-!
# Tracked calls

A call of a real node also calls a virtual node with the outputs that stand for the arguments.
Whether that succeeds depends on the arguments only by their values and by which of those outputs
are empty. The outputs that it leaves differ from call to call only in their identities and inputs.
-/

namespace Flowscript

open List

/-! ## Values without identities -/

namespace Value

def blankOutput (slot : Option Nat) : Value := output 0 "" null 0 null [] (slot.map fun _ => 0)

/-- An output without its identity and its inputs; it is still empty or not. -/
def blank : Value → Value
  | output _ _ _ _ _ _ slot => blankOutput slot
  | v => v

/-- A computed value that does not remember which output it stands for. -/
def mask : Value → Value
  | wrapped v o => wrapped v (blank o)
  | v => v

def maskResult : Value → Value
  | list items => list (items.map mask)
  | v => mask v

theorem blank_blank (v : Value) : blank (blank v) = blank v := by
  cases v with
  | output object typeName info call type inputs slot => cases slot <;> rfl
  | _ => rfl

theorem isEmptyOutput_blank (v : Value) : isEmptyOutput (blank v) = isEmptyOutput v := by
  cases v with
  | output object typeName info call type inputs slot => cases slot <;> rfl
  | _ => rfl

theorem unwrap_mask (v : Value) : RealM.unwrap (mask v) = RealM.unwrap v := by
  cases v <;> rfl

theorem blank_standIn_mask (v : Value) : blank (RealM.standIn (mask v)) = blank (RealM.standIn v) := by
  cases v with
  | wrapped inner o => exact blank_blank o
  | _ => rfl

theorem mask_mask (v : Value) : mask (mask v) = mask v := by
  cases v with
  | wrapped inner o => exact congrArg (wrapped inner) (blank_blank o)
  | _ => rfl

theorem maskResult_mask (v : Value) : maskResult (mask v) = maskResult v := by
  cases v with
  | wrapped inner o => exact congrArg (wrapped inner) (blank_blank o)
  | _ => rfl

def mapValues (f : Value → Value) (entries : List (String × Value)) : List (String × Value) :=
  entries.map fun entry => (entry.1, f entry.2)

theorem mapValues_mapValues (f g : Value → Value) (entries : List (String × Value)) :
    mapValues f (mapValues g entries) = mapValues (fun v => f (g v)) entries := by
  simp [mapValues]

theorem mapValues_put (f : Value → Value) (key : String) (v : Value)
    (entries : List (String × Value)) :
    mapValues f (put key v entries) = put key (f v) (mapValues f entries) := by
  induction entries with
  | nil => rfl
  | cons entry rest ih =>
    obtain ⟨k, w⟩ := entry
    by_cases hk : k = key
    · simp [put, mapValues, hk]
    · simpa [put, mapValues, hk] using ih

theorem mapValues_merge (f : Value → Value) (left right : List (String × Value)) :
    mapValues f (merge left right) = merge (mapValues f left) (mapValues f right) := by
  induction right generalizing left with
  | nil => rfl
  | cons entry rest ih =>
    have hrest := ih (put entry.1 entry.2 left)
    rw [mapValues_put] at hrest
    exact hrest

end Value

open Value (blank mask mapValues)

/-! ## Binding -/

namespace NodeInfo

theorem bindNames_map_values (f : Value → Value) (names args : List Value)
    (bound : List (String × Value)) :
    bindNames names (args.map f) (mapValues f bound) =
      (mapValues f (bindNames names args bound).1, (bindNames names args bound).2.1.map f,
        (bindNames names args bound).2.2) := by
  induction names generalizing args bound with
  | nil => rfl
  | cons name names ih =>
    cases args with
    | nil => rfl
    | cons arg args =>
      have hrest := ih args (Value.put name.text arg bound)
      rw [Value.mapValues_put] at hrest
      exact hrest

theorem bindGroups_map_values (f : Value → Value) (info : Value) (names : List String)
    (args : List Value) (bound : List (String × Value)) :
    bindGroups info names (args.map f) (mapValues f bound) =
      (bindGroups info names args bound).map fun p => (mapValues f p.1, p.2.map f) := by
  induction names generalizing args bound with
  | nil => rfl
  | cons name names ih =>
    rw [bindGroups, bindGroups]
    cases group? info name with
    | error e => rfl
    | ok group =>
      cases group with
      | none => exact ih args bound
      | some group =>
        simp only [ok_bind]
        cases group.iterate with
        | error e => rfl
        | ok keys =>
          simp only [ok_bind, bindNames_map_values]
          split
          · rfl
          · exact ih _ _

theorem bind_map_values (f : Value → Value) (info : Value) (args : List Value) :
    bind info (args.map f) = (bind info args).map fun p => (mapValues f p.1, p.2.map f) :=
  bindGroups_map_values f info positionalGroups args []

theorem surplusNotice_matching (info : Value) {surplus surplus' : List Value}
    (h : surplus.isEmpty = surplus'.isEmpty) :
    Matching Eq (fun _ _ => True) (surplusNotice info surplus) (surplusNotice info surplus') := by
  unfold surplusNotice
  rw [h]
  split
  · exact .ok trivial
  · exact (Matching.refl (fun _ => rfl) (info.entry "name")).bind fun _ _ _ => .ok trivial

end NodeInfo

theorem exists_dropNulls_iff {named : List (String × Value)} :
    (∃ kept, dropNulls named = .ok kept) ↔ ∀ entry ∈ named, isEmptyOutput entry.2 = false := by
  constructor
  · rintro ⟨kept, hkept⟩
    induction named generalizing kept with
    | nil => exact forall_mem_nil _
    | cons entry rest ih =>
      obtain ⟨name, v⟩ := entry
      rw [forall_mem_cons]
      by_cases hv : v = .null
      · subst hv
        exact ⟨rfl, ih kept hkept⟩
      · rw [dropNulls] at hkept
        · cases hempty : isEmptyOutput v with
          | true => rw [hempty] at hkept; cases hkept
          | false =>
            rw [hempty] at hkept
            obtain ⟨others, hothers, -⟩ := ok_of_bind hkept
            exact ⟨rfl, ih others hothers⟩
        · exact hv
  · exact fun h => ⟨_, dropNulls_eq h⟩

theorem dropNulls_matching {named named' : List (String × Value)}
    (h : mapValues blank named = mapValues blank named') :
    Matching (fun _ _ => True) (fun _ _ => True) (dropNulls named) (dropNulls named') := by
  have hblank (entries : List (String × Value)) :
      (∀ entry ∈ entries, isEmptyOutput entry.2 = false) ↔
        ∀ entry ∈ mapValues blank entries, isEmptyOutput entry.2 = false := by
    rw [mapValues, forall_mem_map]
    simp only [Value.isEmptyOutput_blank]
  apply Matching.of_iff
  rw [exists_dropNulls_iff, exists_dropNulls_iff, hblank, h, ← hblank]

/-! ## Calls of virtual nodes -/

namespace VirtualNode

variable {n : VirtualNode}

def blanks (n : VirtualNode) : List Value := n.slots.map Value.blankOutput

def Yields (n : VirtualNode) (v : Value) : Prop :=
  ∃ outputs, (v = .list outputs ∨ outputs = [v] ∧ v.iterable = false) ∧ outputs.map blank = n.blanks

theorem shadow?_of_attached (h : n.entry.attached = []) (name : String) :
    n.shadow? name = none := by
  rw [shadow?, h]
  rfl

theorem Yields.iterate {v : Value} (h : n.Yields v) (hv : v.iterable = true) :
    ∃ items, v.iterate = .ok items := by
  obtain ⟨outputs, rfl | ⟨-, hsingle⟩, -⟩ := h
  · exact ⟨outputs, rfl⟩
  · exact absurd hv (by simp [hsingle])

def Packed (n : VirtualNode) (v : Value) : Prop :=
  ∃ outputs, v = .list outputs ∧ outputs.map blank = n.blanks

theorem Yields.single {slot : Option Nat} (h : n.blanks = [.blankOutput slot]) {object : Nat}
    {typeName : String} {info : Value} {call : Nat} {type : Value} {inputs : List (String × Value)} :
    n.Yields (.output object typeName info call type inputs slot) :=
  ⟨[_], .inr ⟨rfl, rfl⟩, h.symm⟩

theorem Yields.several {count : Nat} (hn : n.slots = (List.range count).map some) {outputs : List Value}
    (hlength : outputs.length = count) (h : ∀ o ∈ outputs, blank o = .blankOutput (some 0)) :
    n.Yields (.list outputs) := by
  refine ⟨outputs, .inl rfl, ?_⟩
  have hblanks : n.blanks = List.replicate count (.blankOutput (some 0)) := by
    rw [blanks, hn, map_map, eq_replicate_iff]
    refine ⟨by simp, fun v hv => ?_⟩
    obtain ⟨i, -, rfl⟩ := mem_map.mp hv
    rfl
  rw [hblanks, eq_replicate_iff]
  refine ⟨by simp [hlength], fun v hv => ?_⟩
  obtain ⟨o, ho, rfl⟩ := mem_map.mp hv
  exact h o ho

end VirtualNode

namespace SessionM

variable {κ : Type} {n : VirtualNode}

theorem agree_check_self {α : Type} (result : Except Fault α) :
    Agree Eq Eq (check result : SessionM κ α) (check result : SessionM κ α) :=
  agree_check (.refl (fun _ => rfl) result)

theorem agree_bindPositional (f : Value → Value) (info : Value) {args args' : List Value}
    (h : args.map f = args'.map f) :
    Agree Eq (fun bound bound' => mapValues f bound = mapValues f bound')
      (bindPositional info args : SessionM κ _) (bindPositional info args' : SessionM κ _) := by
  have hbind : (NodeInfo.bind info args).map (fun p => (mapValues f p.1, p.2.map f)) =
      (NodeInfo.bind info args').map fun p => (mapValues f p.1, p.2.map f) := by
    rw [← NodeInfo.bind_map_values, ← NodeInfo.bind_map_values, h]
  unfold bindPositional
  refine (agree_check (Matching.of_map_eq hbind)).bind fun p p' hp => ?_
  obtain ⟨bound, surplus⟩ := p
  obtain ⟨bound', surplus'⟩ := p'
  have hempty : surplus.isEmpty = surplus'.isEmpty := by
    rw [← isEmpty_map (f := f), (Prod.mk.inj hp).2, isEmpty_map]
  refine (agree_check (NodeInfo.surplusNotice_matching info hempty)).bind fun _ _ _ => ?_
  exact (agree_modify _ _).bind fun _ _ _ => agree_pure (Prod.mk.inj hp).1

theorem agree_freshId :
    Agree Eq (fun _ _ => True) (freshId : SessionM κ Nat) (freshId : SessionM κ Nat) :=
  fun _ _ => .ok trivial

theorem agree_makeOutputs (hn : n.entry.attached = []) (inputs inputs' : List (String × Value)) :
    Agree Eq (fun v v' => n.Yields v ∧ n.Yields v') (makeOutputs n inputs : SessionM κ Value)
      (makeOutputs n inputs' : SessionM κ Value) := by
  unfold makeOutputs
  simp only [VirtualNode.shadow?_of_attached hn, Option.isSome_none, Bool.false_and,
    Bool.false_eq_true, if_false]
  refine (agree_check_self (n.infoEntry "name")).bind fun type type' _ => ?_
  refine agree_freshId.bind fun call call' _ => ?_
  cases htypes : n.entry.outputTypes with
  | nil =>
    have hblanks : n.blanks = [Value.blankOutput none] := by
      simp [VirtualNode.blanks, VirtualNode.slots, htypes]
    exact agree_freshId.bind fun _ _ _ => agree_pure ⟨.single hblanks, .single hblanks⟩
  | cons t rest =>
    cases rest with
    | nil =>
      have hblanks : n.blanks = [Value.blankOutput (some 0)] := by
        simp [VirtualNode.blanks, VirtualNode.slots, htypes]
      refine (agree_check_self (VirtualNode.outputName t)).bind fun _ _ _ => ?_
      exact agree_freshId.bind fun _ _ _ => agree_pure ⟨.single hblanks, .single hblanks⟩
    | cons t' rest =>
      have hslots : n.slots = (List.range (t :: t' :: rest).length).map some := by
        rw [VirtualNode.slots, htypes, if_neg (cons_ne_nil t _)]
      -- an output with a slot is blank whatever the slot is
      refine (Agree.mapM (R := fun o o' => blank o = .blankOutput (some 0) ∧
        blank o' = .blankOutput (some 0)) fun ti _ => ?_).bind fun outputs outputs' h => ?_
      · refine (agree_check_self (VirtualNode.outputName ti.1)).bind fun _ _ _ => ?_
        exact agree_freshId.bind fun _ _ _ => agree_pure ⟨rfl, rfl⟩
      · obtain ⟨hlength, houtputs⟩ := h
        rw [length_zipIdx] at hlength
        have hleft := (List.forall₂_and_left outputs outputs').mp houtputs
        have hright := (List.forall₂_and_left outputs' outputs).mp (houtputs.imp fun _ _ => And.symm).flip
        exact agree_pure ⟨.several hslots hlength hleft.1,
          .several hslots (houtputs.length_eq ▸ hlength) hright.1⟩

theorem agree_offer (hn : n.entry.attached = []) {v v' : Value} (hv : n.Yields v) (hv' : n.Yields v') :
    Agree Eq (fun _ _ => True) (offer n v : SessionM κ Unit) (offer n v' : SessionM κ Unit) := by
  have hcollect {w : Value} (hw : n.Yields w) (flow : Nat) (s : Session κ) :
      ((collect flow w).run s).1 = .ok () := by
    unfold collect
    by_cases hiterable : w.iterable = true
    · obtain ⟨items, hitems⟩ := hw.iterate hiterable
      rw [if_pos hiterable, hitems, run_bind_ok (run_check_ok items s)]
      rfl
    · rw [if_neg hiterable]
      rfl
  have hoffered {w : Value} (hw : n.Yields w) (s : Session κ) : ((offer n w).run s).1 =
      (n.entry.info.get "output_node").map fun _ => () := by
    unfold offer
    rw [run_bind]
    cases n.entry.info.get "output_node" with
    | error e => rfl
    | ok found =>
      rw [run_check_ok]
      dsimp only
      split
      · simp only [VirtualNode.shadow?_of_attached hn, Option.isSome_none, Bool.false_eq_true, if_false]
        rw [run_bind_ok (run_get s)]
        cases s.hook with
        | none => rfl
        | some flow => exact hcollect hw flow s
      · rfl
  intro s t
  rw [hoffered hv, hoffered hv']
  exact .refl (fun _ => trivial) _

theorem agree_callNode (hn : n.entry.attached = []) (hpacks : n.packs = true)
    {named named' : List (String × Value)} (h : mapValues blank named = mapValues blank named') :
    Agree (fun _ _ => True)
      (fun v v' => n.Packed v ∧ n.Packed v')
      (callNode n [] named : SessionM κ Value) (callNode n [] named' : SessionM κ Value) := by
  unfold callNode
  simp only [VirtualNode.shadow?_of_attached hn, Option.isSome_none, Bool.false_eq_true, if_false,
    hpacks, Bool.true_or, if_true]
  refine (agree_bindPositional blank n.entry.info rfl).anyFault.bind fun bound bound' hbound => ?_
  have hmerged : mapValues blank (Value.merge bound named) =
      mapValues blank (Value.merge bound' named') := by
    rw [Value.mapValues_merge, Value.mapValues_merge, hbound, h]
  refine (agree_check (dropNulls_matching hmerged)).bind fun kept kept' _ => ?_
  refine (agree_makeOutputs hn _ _).anyFault.bind fun v v' hv => ?_
  refine (agree_offer hn hv.1 hv.2).anyFault.bind fun _ _ _ => ?_
  have hpack (w : Value) : n.Yields w → ∃ packed, n.Packed packed ∧
      (match w with
        | .list _ => pure w
        | output => pure (.list [output]) : SessionM κ Value) = pure packed := by
    rintro ⟨outputs, rfl | ⟨rfl, hsingle⟩, hblanks⟩
    · exact ⟨_, ⟨outputs, rfl, hblanks⟩, rfl⟩
    · cases w with
      | list items => cases hsingle
      | _ => exact ⟨_, ⟨_, rfl, hblanks⟩, rfl⟩
  obtain ⟨packed, hpacked, heq⟩ := hpack v hv.1
  obtain ⟨packed', hpacked', heq'⟩ := hpack v' hv.2
  have hpure : Agree (fun _ _ => True) (fun v v' => n.Packed v ∧ n.Packed v')
      (pure packed : SessionM κ Value) (pure packed' : SessionM κ Value) :=
    agree_pure ⟨hpacked, hpacked'⟩
  rw [← heq, ← heq'] at hpure
  exact hpure

end SessionM

/-! ## Tracking -/

/-- A layer that does all that layers can do, around a node with its own attributes. -/
structure Layer.Full (l : Layer) : Prop where
  config : l.config = .full
  packs : l.node.packs = true
  attached : l.node.entry.attached = []

/-- What two tracked calls may leave: nothing, or outputs of the same kind. -/
inductive Layer.Stand (l : Layer) : Option (List Value) → Option (List Value) → Prop where
  | untracked : l.Stand none none
  | tracked {outputs outputs' : List Value} (h : outputs.map blank = l.node.blanks)
      (h' : outputs'.map blank = l.node.blanks) : l.Stand (some outputs) (some outputs')

theorem Layer.Stand.isSome_eq {l : Layer} {outputs outputs' : Option (List Value)}
    (h : l.Stand outputs outputs') : outputs.isSome = outputs'.isSome := by
  cases h <;> rfl

theorem Layer.Stand.of_isSome {l : Layer} {outputs outputs' : Option (List Value)}
    (h : l.Stand outputs outputs) (h' : l.Stand outputs' outputs')
    (hsome : outputs.isSome = outputs'.isSome) : l.Stand outputs outputs' := by
  cases h with
  | untracked =>
    cases h' with
    | untracked => exact .untracked
    | tracked h' _ => cases hsome
  | tracked h _ =>
    cases h' with
    | untracked => cases hsome
    | tracked h' _ => exact .tracked h h'

namespace RealM

variable {l : Layer} {α : Type}

theorem of_run_virtual {x : SessionM Unit α} {a : α} {s s' : RealState}
    (h : (virtual x).run s = (.ok a, s')) :
    ∃ session, x.run s.session = (.ok a, session) ∧ s' = { s with session := session } := by
  cases hx : x.run s.session with
  | mk result session =>
    have hrun : (virtual x).run s = (result, { s with session := session }) := by
      rw [virtual, ExceptT.run, ExceptT.mk, hx]
    rw [hrun] at h
    cases h
    exact ⟨session, rfl, rfl⟩

theorem agree_virtual {β : Type} {E : Fault → Fault → Prop} {R : α → β → Prop} {x : SessionM Unit α}
    {y : SessionM Unit β} (h : Agree E R x y) :
    Agree E R (virtual x) (virtual y) :=
  fun s t => h s.session t.session

theorem agree_check_self (result : Except Fault α) :
    Agree Eq Eq (check result) (check result) :=
  agree_check (.refl (fun _ => rfl) result)

theorem agree_track (hl : l.Full) {named named' : List (String × Value)}
    (h : mapValues mask named = mapValues mask named') :
    Agree Eq l.Stand (track l named) (track l named') := by
  have hstood : mapValues blank (mapValues standIn named) =
      mapValues blank (mapValues standIn named') := by
    have hmasked (entries : List (String × Value)) :
        mapValues blank (mapValues standIn entries) =
          mapValues (fun v => blank (standIn v)) (mapValues mask entries) := by
      rw [Value.mapValues_mapValues, Value.mapValues_mapValues]
      simp only [Value.blank_standIn_mask]
    rw [hmasked, hmasked, h]
  unfold track
  refine Agree.tryCatch (F := fun _ _ => True) ?_ fun e e' _ => ?_
  · refine (agree_virtual (SessionM.agree_callNode hl.attached hl.packs hstood)).bind fun v v' hv => ?_
    obtain ⟨⟨outputs, rfl, houtputs⟩, outputs', rfl, houtputs'⟩ := hv
    exact agree_pure (.tracked houtputs houtputs')
  · refine (agree_check_self (l.info.entry "name")).bind fun _ _ _ => ?_
    exact (agree_virtual (agree_modify _ _)).bind fun _ _ _ => agree_pure .untracked

end RealM

end Flowscript
