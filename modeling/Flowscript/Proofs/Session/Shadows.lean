import Flowscript.Proofs.Registry.Choices
import Flowscript.Proofs.Session.Sent

/-!
# Enumerations in the place of attributes

The enumerations of a node are attached to it under the identifiers of its inputs and outputs, where
its own attributes are too. A node is called as one without enumerations exactly if no choice is
named after an attribute that the call reads; after the one that says whether a single output
is given as a list, only if there is never a single output.
-/

namespace Flowscript

/-- A choice among the inputs or the output slots is attached under the key. -/
def Attaches (declared : List DeclaredInput) (slots : List (String × Value)) (key : String) : Prop :=
  (∃ x ∈ declared, Hinting.IsChoice x.type ∧ Identifier.raw x.name = key) ∨
    ∃ slot ∈ slots, Hinting.IsChoice slot.2 ∧ Identifier.raw slot.1 = key

namespace Hinting

variable {scope : Scope} {isOutput : Bool} {name id text : String} {type suggested : Value}
variable {t : TypeRef} {f f' : Findings} {r r' : Registry}

theorem Typed.isSome_attached_iff (h : Typed scope isOutput name id type f r t text suggested f' r')
    (key : String) : (Table.find? key f'.attached).isSome = true ↔
      (Table.find? key f.attached).isSome = true ∨ IsChoice type ∧ id = key := by
  have hsame (hno : ¬IsChoice type) : (Table.find? key f.attached).isSome = true ↔
      (Table.find? key f.attached).isSome = true ∨ IsChoice type ∧ id = key :=
    (or_iff_left fun hchoice => hno hchoice.1).symm
  cases h with
  | @choice _ e _ stub _ hitems hno _ =>
    have hchoice : IsChoice type := ⟨⟨_, hitems⟩, hno⟩
    have hput : (f.attach id e stub).attached = Table.put id e f.attached := rfl
    by_cases hid : id = key
    · rw [hput, hid, Table.find?_put_self]
      simp [hchoice]
    · rw [hput, Table.find?_put_of_ne hid]
      simp [hid]
  | yesNo _ hyes _ => exact hsame fun hchoice => by cases hchoice.2.symm.trans hyes
  | any hplain | basic hplain _ | known hplain _ _ _ | declared hplain _ _ | dotted hplain _ =>
    refine hsame fun hchoice => ?_
    obtain ⟨items, hitems⟩ := hchoice.1
    exact hitems.elim (hplain items).1 (hplain items).2

theorem InputsRead.isSome_attached_iff {xs : List DeclaredInput} {inputs inputs' : Inputs}
    (h : InputsRead scope xs inputs f r inputs' f' r') (key : String) :
    (Table.find? key f'.attached).isSome = true ↔ (Table.find? key f.attached).isSome = true ∨
      ∃ x ∈ xs, IsChoice x.type ∧ Identifier.raw x.name = key := by
  induction h with
  | nil _ _ _ => simp
  | cons hfirst _ ih =>
    cases hfirst with
    | mk htyped =>
      rw [ih, List.exists_mem_cons_iff, ← or_assoc]
      exact or_congr_left (htyped.isSome_attached_iff key)

theorem OutputsRead.isSome_attached_iff {slots : List (String × Value)} {types : List TypeRef}
    (h : OutputsRead scope slots types f r f' r') (key : String) :
    (Table.find? key f'.attached).isSome = true ↔ (Table.find? key f.attached).isSome = true ∨
      ∃ slot ∈ slots, IsChoice slot.2 ∧ Identifier.raw slot.1 = key := by
  induction h with
  | nil _ _ => simp
  | cons htyped _ ih =>
    rw [ih, List.exists_mem_cons_iff, ← or_assoc]
    exact or_congr_left (htyped.isSome_attached_iff key)

end Hinting

theorem exists_attaches {info : Value} {name id stub : String} {r r₁ : Registry} {modules : Modules}
    {types : List TypeRef} {findings : Findings}
    (h : Registering.readFor modules info r name id = (.ok ((stub, types), findings), r₁)) :
    ∃ declared slots, declaredInputs r.hiddenInputs info = .ok declared ∧
      outputSlots info = .ok slots ∧
      ∀ key, (Table.find? key findings.attached).isSome = true ↔ Attaches declared slots key := by
  obtain ⟨declared, inputs, f₁, r₂, slots, _, _, _, _, _, -, hdeclared, hinputs, hslots, htypes, hagain,
    -⟩ := Hinting.of_run_readNode h
  refine ⟨declared, slots, hdeclared, hslots, fun key => ?_⟩
  rw [hagain.isSome_attached_iff, htypes.isSome_attached_iff, hinputs.isSome_attached_iff, Attaches]
  simp [Table.find?]

namespace VirtualNode

variable {n : VirtualNode}

/-- The node without its enumerations. -/
def bare (n : VirtualNode) : VirtualNode := ⟨{ n.entry with attached := [] }, n.packs⟩

def LeavesOne (n : VirtualNode) : Prop :=
  n.entry.outputTypes.length ≤ 1 ∧ ∀ t ∈ n.entry.outputTypes, ∃ typeName, outputName t = .ok typeName

/-- The attributes are those that the node was made with, and every call is one of the node without
its enumerations. -/
structure Undamaged (n : VirtualNode) : Prop where
  own : ∀ name ∈ ["info", "defaults", "output_types", "output_hook"], n.shadow? name = none
  calls : ∀ (κ : Type) (arguments : List Value) (named : List (String × Value)) (s : Session κ),
    (SessionM.callNode n arguments named).run s = (SessionM.callNode n.bare arguments named).run s

end VirtualNode

namespace SessionM

variable {κ : Type} {n : VirtualNode} {s s' : Session κ} {v : Value}

def pack : Value → Value
  | .list items => .list items
  | v => .list [v]

theorem callNode_eq_bare (hn : ∀ name ∈ ["info", "defaults", "output_types", "output_hook"],
      n.shadow? name = none) (hpacks : n.packs = false) (arguments : List Value)
    (named : List (String × Value)) : (callNode n arguments named : SessionM κ Value) = do
      let outputs ← callNode n.bare arguments named
      return if (n.shadow? "_pack_single_output").isSome then pack outputs else outputs := by
  have hinfo := hn "info" (by simp)
  have hdefaults := hn "defaults" (by simp)
  have htypes := hn "output_types" (by simp)
  have hhook := hn "output_hook" (by simp)
  have hbare (name : String) : n.bare.shadow? name = none := rfl
  have hmake (inputs : List (String × Value)) :
      (makeOutputs n inputs : SessionM κ Value) = makeOutputs n.bare inputs := by
    simp only [makeOutputs, VirtualNode.infoEntry, hinfo, htypes, hbare]
    rfl
  have hoffer (outputs : Value) : (offer n outputs : SessionM κ Unit) = offer n.bare outputs := by
    simp only [offer, hhook, hbare]
    rfl
  simp only [callNode, hinfo, hdefaults, hbare, hmake, hoffer, hpacks, show n.bare.packs = false from hpacks,
    Option.isSome_none, Bool.false_eq_true, if_false, Bool.false_or, bind_assoc, pure_bind]
  refine bind_congr fun bound => bind_congr fun kept => bind_congr fun outputs => bind_congr fun _ => ?_
  split
  · cases outputs <;> rfl
  · rfl

/-- A call that does not leave one output gives a list, if anything. -/
theorem list_of_callNode {arguments : List Value} {named : List (String × Value)} (hpacks : n.packs = false)
    (hmany : ¬n.LeavesOne) (h : (callNode n.bare arguments named).run s = (.ok v, s')) :
    ∃ outputs, v = .list outputs := by
  obtain ⟨_, _, _, made, _, _, -, -, hmade, hv⟩ := of_run_callNode h
  obtain ⟨_, _, outputs, hall, -, -, hmakes⟩ := of_run_makeOutputs hmade
  obtain rfl | ⟨hpacks', -⟩ := hv
  · obtain rfl | ⟨-, hlength⟩ := hall
    · exact ⟨outputs, rfl⟩
    · exact absurd ⟨hlength rfl, hmakes rfl⟩ hmany
  · rw [show n.bare.packs = false from hpacks] at hpacks'
    cases hpacks'

theorem run_makeOutputs_one {type : Value} (hn : n.shadow? "output_types" = none) (hone : n.LeavesOne)
    (htype : n.infoEntry "name" = .ok type) (inputs : List (String × Value)) (s : Session κ) : ∃ v s', (makeOutputs n inputs).run s = (.ok v, s') ∧ s'.hook = s.hook ∧
      pack v ≠ v := by
  obtain ⟨hlength, hmakes⟩ := hone
  unfold makeOutputs
  rw [htype, run_bind_ok (run_check_ok type s)]
  simp only [hn, Option.isSome_none, Bool.false_and, Bool.false_eq_true, if_false]
  rcases htypes : n.entry.outputTypes with - | ⟨t, - | ⟨t', rest⟩⟩
  · exact ⟨_, _, rfl, rfl, fun h => by cases h⟩
  · obtain ⟨typeName, hname⟩ := hmakes t (by simp [htypes])
    dsimp only
    rw [hname]
    exact ⟨_, _, rfl, rfl, fun h => by cases h⟩
  · simp [htypes] at hlength

theorem run_callNode_one {type : Value} {flag : Option Value}
    (hone : n.LeavesOne) (hpacks : n.packs = false) (htype : n.entry.info.entry "name" = .ok type)
    (hflag : n.entry.info.get "output_node" = .ok flag)
    (hbind : NodeInfo.bind n.entry.info [] = .ok ([], [])) (hs : s.hook = none) :
    ∃ v s', (callNode n.bare [] []).run s = (.ok v, s') ∧ pack v ≠ v := by
  have hbare (name : String) : n.bare.shadow? name = none := rfl
  have hbound : (bindPositional n.bare.entry.info []).run s = (.ok [], s) := run_bindPositional hbind s
  obtain ⟨v, s₁, hmake, hhook, hsingle⟩ := run_makeOutputs_one (n := n.bare) (hbare _) hone htype
    (Value.merge n.bare.entry.defaults []) s
  have hoffer : (offer n.bare v).run s₁ = (.ok (), s₁) := by
    unfold offer
    rw [show n.bare.entry.info.get "output_node" = _ from hflag, run_bind_ok (run_check_ok flag s₁)]
    split
    · simp only [hbare, Option.isSome_none, Bool.false_eq_true, if_false]
      rw [run_bind_ok (run_get s₁), hhook, hs]
      rfl
    · rfl
  refine ⟨v, s₁, ?_, hsingle⟩
  unfold callNode
  simp only [hbare, show n.bare.packs = false from hpacks, Option.isSome_none, Bool.false_eq_true, if_false,
    Bool.or_self]
  rw [run_bind_ok hbound]
  exact (run_bind_ok (run_check_ok [] s)).trans ((run_bind_ok hmake).trans (run_bind_ok hoffer))

end SessionM

theorem Value.exists_get_of_entry {v w : Value} {key : String} (h : v.entry key = .ok w) (other : String) :
    ∃ found, v.get other = .ok found := by
  unfold entry item at h
  unfold get
  split at h
  next hbare => exact ⟨_, by rw [hbare]⟩
  all_goals cases h

theorem VirtualNode.undamaged_iff {n : VirtualNode} {type : Value} {flag : Option Value}
    (hpacks : n.packs = false) (htype : n.entry.info.entry "name" = .ok type)
    (hflag : n.entry.info.get "output_node" = .ok flag)
    (hbind : NodeInfo.bind n.entry.info [] = .ok ([], [])) :
    n.Undamaged ↔ (∀ name ∈ ["info", "defaults", "output_types", "output_hook"], n.shadow? name = none) ∧
      ¬((n.shadow? "_pack_single_output").isSome = true ∧ n.LeavesOne) := by
  constructor
  · rintro ⟨hown, hcalls⟩
    refine ⟨hown, fun hboth => ?_⟩
    obtain ⟨hpack, hone⟩ := hboth
    obtain ⟨v, s', hrun, hsingle⟩ := SessionM.run_callNode_one (κ := Unit) (s := .new ⟨[]⟩ "" false)
      hone hpacks htype hflag hbind rfl
    have hsame := hcalls Unit [] [] (.new ⟨[]⟩ "" false)
    rw [SessionM.callNode_eq_bare hown hpacks, run_bind_ok hrun, hrun, if_pos hpack] at hsame
    exact hsingle (Except.ok.inj (congrArg Prod.fst hsame))
  · rintro ⟨hown, hpack⟩
    refine ⟨hown, fun κ arguments named s => ?_⟩
    rw [SessionM.callNode_eq_bare hown hpacks]
    rcases hrun : (SessionM.callNode n.bare arguments named).run s with ⟨e | v, s'⟩
    · exact run_bind_error hrun
    · rw [run_bind_ok hrun]
      split
      next hsome =>
        obtain ⟨outputs, rfl⟩ := SessionM.list_of_callNode hpacks (fun hone => hpack ⟨hsome, hone⟩) hrun
        rfl
      next => rfl

/-- A node that is added to a registry has an enumeration under a key exactly if a choice among its
inputs and outputs has this identifier. Its attributes are those it was made with, and every call is
one of the node without enumerations, exactly if no choice is named after an attribute, and none says
to give as a list the single output that the node leaves. -/
theorem undamaged_iff_unattached {r r' : Registry} {modules : Modules}
    {make : NodeEntry → Except Fault (Option String)} {info : Value} {name id : String}
    (hname : Registering.named info = .ok name) (hnew : r.resolve name = .inr id)
    (hadd : (Registering.addNode modules make info).run r = (.ok (), r')) :
    ∃ entry declared slots, Table.find? name r'.nodes = some entry ∧ entry.info = info ∧
      declaredInputs r.hiddenInputs info = .ok declared ∧ outputSlots info = .ok slots ∧
      (∀ key, (VirtualNode.mk entry false).shadow? key = none ↔ ¬Attaches declared slots key) ∧
      ((VirtualNode.mk entry false).Undamaged ↔
        (∀ key ∈ ["info", "defaults", "output_types", "output_hook"], ¬Attaches declared slots key) ∧
        ¬(Attaches declared slots "_pack_single_output" ∧ (VirtualNode.mk entry false).LeavesOne)) := by
  obtain ⟨stub, types, findings, className, r₁, hread, rfl⟩ := Registering.made_of_run_ok hname hnew hadd
  obtain ⟨positional, _, hpositional, -, -⟩ := exists_declaredInputs hread
  obtain ⟨declared, slots, hdeclared, hslots, hattached⟩ := exists_attaches hread
  have hshadow (key : String) : ((VirtualNode.mk (Registering.entryOf info types findings) false).shadow?
      key = none) ↔ ¬Attaches declared slots key := by
    rw [← hattached, Option.not_isSome_iff_eq_none]
    rfl
  obtain ⟨type, htype, -⟩ := ok_of_bind hname
  obtain ⟨flag, hflag⟩ := Value.exists_get_of_entry htype "output_node"
  obtain ⟨groups, hgroups, h⟩ := ok_of_bind hpositional
  cases h
  have hbind : NodeInfo.bind info [] = .ok ([], []) := by
    refine (NodeInfo.bindGroups_declared hgroups (Nat.zero_le _) []).trans ?_
    rw [List.zip_nil_right]
    rfl
  refine ⟨_, declared, slots, Table.find?_put_self _ _ _, rfl, hdeclared, hslots, hshadow, ?_⟩
  rw [VirtualNode.undamaged_iff rfl htype hflag hbind]
  simp only [hshadow, ← hattached]
  rfl

def describedInfo : Value :=
  .dict [("name", .str "Pick"), ("display_name", .str "Pick"), ("description", .str ""),
    ("category", .str "c"), ("output_node", .bool false), ("output", .list [.str "INT"]),
    ("output_name", .list [.str "INT"]), ("input", .dict [("required", .dict [
      ("info", .list [.list [.str "a", .str "b"]])])])]

/-- A choice takes the place of the description of its node. -/
theorem undamaged_iff_unattached_described :
    ∃ r' entry, Registering.named describedInfo = .ok "Pick" ∧
      (Registry.empty true 2000 false).resolve "Pick" = .inr "Pick" ∧
      (Registering.addNode .none (fun _ => .ok none) describedInfo).run (.empty true 2000 false) =
        (.ok (), r') ∧
      Table.find? "Pick" r'.nodes = some entry ∧ ¬(VirtualNode.mk entry false).Undamaged := by
  have hname : Registering.named describedInfo = .ok "Pick" := rfl
  have hnew : (Registry.empty true 2000 false).resolve "Pick" = .inr "Pick" :=
    Sum.getRight?_eq_some_iff.mp (by decide +kernel)
  have hok : ((Registering.addNode .none (fun _ => .ok none) describedInfo).run
      (.empty true 2000 false)).1.isOk = true := by
    decide +kernel
  cases hadd : (Registering.addNode .none (fun _ => .ok none) describedInfo).run
      (.empty true 2000 false) with
  | mk result r' =>
    rw [hadd] at hok
    cases result with
    | error e => cases hok
    | ok _ =>
      obtain ⟨entry, declared, slots, hentry, -, hdeclared, -, -, hiff⟩ :=
        undamaged_iff_unattached hname hnew hadd
      refine ⟨r', entry, hname, hnew, rfl, hentry, fun h => (hiff.mp h).1 "info" (by simp) ?_⟩
      rw [← Except.ok.inj hdeclared]
      exact .inl ⟨_, List.mem_cons_self, ⟨⟨_, .inl rfl⟩, rfl⟩, by decide +kernel⟩

end Flowscript
