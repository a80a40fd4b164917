import Flowscript.Proofs.Registry.Reading
import Flowscript.Session.Load

/-!
# Registered nodes

What is registered for a node comes from a description with its name: there is one default for an
input and none is nothing, and each output in the description has a type. Where that output is a
choice, its type makes no outputs.
-/

namespace Flowscript

open List

namespace Hinting

variable {scope : Scope} {f f' : Findings} {r r' : Registry} {slots : List (String × Value)}

def Stands (type : Value) (t : TypeRef) : Prop :=
  ∀ items, type = .list items ∨ type = .tuple items → VirtualNode.outputName t = .error .wrongKind

theorem Typed.stands {isOutput : Bool} {name id text : String} {type suggested : Value} {t : TypeRef}
    (h : Typed scope isOutput name id type f r t text suggested f' r') : Stands type t := by
  intro items hitems
  have hnot (hplain : ∀ items, type ≠ .list items ∧ type ≠ .tuple items) : False :=
    hitems.elim (hplain items).1 (hplain items).2
  cases h with
  | yesNo _ _ _ | choice _ _ _ => rfl
  | any hplain | basic hplain _ | known hplain _ _ _ | declared hplain _ _ | dotted hplain _ =>
    exact (hnot hplain).elim

theorem OutputsRead.stands {types : List TypeRef} (h : OutputsRead scope slots types f r f' r') :
    List.Forall₂ Stands (slots.map Prod.snd) types := by
  induction h with
  | nil _ _ => exact .nil
  | cons hfirst _ ih => exact .cons hfirst.stands ih

def declaredOutputs (info : Value) : Except Fault (List Value) := do (← info.entry "output").iterate

theorem map_fst_outputNames {info : Value} {outputs : List (Value × Value)}
    (h : outputNames info = .ok outputs) : declaredOutputs info = .ok (outputs.map Prod.fst) := by
  unfold outputNames at h
  obtain ⟨named, -, h⟩ := ok_of_bind h
  obtain ⟨named, -, h⟩ := ok_of_bind h
  obtain ⟨names, -, h⟩ := ok_of_bind h
  obtain ⟨output, houtput, h⟩ := ok_of_bind h
  obtain ⟨types, htypes, h⟩ := ok_of_bind h
  cases h
  rw [declaredOutputs, houtput, ok_bind, htypes, map_fst_zip]
  simp only [length_append, length_drop]
  omega

theorem map_snd_of_mapM_outputSlot {outputs : List (Value × Value)}
    (h : outputs.mapM outputSlot = .ok slots) : slots.map Prod.snd = outputs.map Prod.fst := by
  induction outputs generalizing slots with
  | nil =>
    cases h
    rfl
  | cons declared rest ih =>
    rw [mapM_cons] at h
    obtain ⟨slot, hslot, h⟩ := ok_of_bind h
    obtain ⟨name, -, hslot⟩ := ok_of_bind hslot
    obtain ⟨slots', hslots', h⟩ := ok_of_bind h
    cases hslot
    cases h
    exact congrArg (declared.1 :: ·) (ih hslots')

theorem declaredOutputs_eq {info : Value} (h : outputSlots info = .ok slots) :
    declaredOutputs info = .ok (slots.map Prod.snd) := by
  obtain ⟨outputs, houtputs, hslots⟩ := ok_of_bind h
  rw [map_fst_outputNames houtputs, map_snd_of_mapM_outputSlot hslots]

end Hinting

structure NodeEntry.From (infos : List Value) (name : String) (entry : NodeEntry) : Prop where
  mem : entry.info ∈ infos
  named : Registering.named entry.info = .ok name
  nodup : (entry.defaults.map Prod.fst).Nodup
  given : ∀ d ∈ entry.defaults, d.2 ≠ .null
  outputs : ∃ types, Hinting.declaredOutputs entry.info = .ok types ∧
    List.Forall₂ Hinting.Stands types entry.outputTypes

namespace Registering

variable {r : Registry} {held : List String} {infos : List Value}

def AllFrom (infos : List Value) (r : Registry) : Prop :=
  ∀ node ∈ r.nodes, node.2.From infos node.1

theorem AllFrom.of_eq {r' : Registry} (h : AllFrom infos r) (hnodes : r'.nodes = r.nodes) :
    AllFrom infos r' := by
  unfold AllFrom
  rw [hnodes]
  exact h

theorem from_addNode (hr : r.Sound held) (h : AllFrom infos r) (modules : Modules)
    (make : NodeEntry → Except Fault (Option String)) {info : Value} (hinfo : info ∈ infos) :
    AllFrom infos ((addNode modules make info).run r).2 := by
  have hgrows (name id : String) : (r.setVar id (.claimed id name)).Grows (readFor modules info r name id).2 :=
    (Hinting.evolving_readNode.registry _ (r.setVar id (.claimed id name)) hr.imports).grows
  have hadded := added_addNode hr modules make info
  generalize (addNode modules make info).run r = p at hadded
  cases hadded with
  | unnamed _ => exact h
  | known _ _ => exact h
  | @unread name id _ _ _ _ hread =>
    have hnodes := (hgrows name id).nodes
    rw [hread] at hnodes
    exact h.of_eq hnodes
  | @unmade name id _ _ _ _ _ _ _ hread _ =>
    have hnodes := (hgrows name id).nodes
    rw [hread] at hnodes
    exact h.of_eq hnodes
  | @made name id stub types findings _ r' hname _ hread _ =>
    have hnodes := (hgrows name id).nodes
    rw [hread] at hnodes
    have htidy : findings.Tidy :=
      Hinting.evolving_readNode.tidy (r := r.setVar id (.claimed id name)) hread
        ⟨nodup_nil, fun _ hmem => nomatch hmem⟩
    obtain ⟨_, _, _, _, slots, _, _, _, _, _, -, -, -, hslots, htypes, -⟩ := Hinting.of_run_readNode hread
    intro node hnode
    rcases Table.mem_put_cases hnode with hold | rfl
    · exact h.of_eq hnodes node hold
    · exact ⟨hinfo, hname, htidy.nodup, htidy.given, _, Hinting.declaredOutputs_eq hslots, htypes.stands⟩

theorem from_addAll (hr : r.Sound held) (h : AllFrom infos r)
    (make : NodeEntry → Except Fault (Option String)) {rest : List Value} (hrest : rest ⊆ infos) :
    AllFrom infos ((addAll make rest).run r).2 := by
  induction rest generalizing r with
  | nil => exact h
  | cons info rest ih =>
    obtain ⟨hinfo, hrest⟩ := cons_subset.mp hrest
    have hadded := from_addNode hr h .none make hinfo
    have hevolves := evolves_addNode hr .none make info
    rw [addAll, run_bind, run_tryCatch]
    rcases hrun : (addNode .none make info).run r with ⟨e | _, r₁⟩ <;> rw [hrun] at hadded hevolves
    · -- whether the fault can be noted depends on the name in the description
      dsimp only
      cases info.entry "name" with
      | error e' => exact hadded
      | ok name =>
        exact ih ((hr.of_evolves hevolves).of_change (.aside rfl rfl)) (hadded.of_eq rfl) hrest
    · exact ih (hr.of_evolves hevolves) hadded hrest

end Registering

namespace SessionM

variable {κ : Type} {s s' : Session κ}

theorem of_run_register {hiddenInputs : Bool} {maxEnumValues : Int}
    {make : NodeEntry → Except Fault (Option String)} {here : LocalNodes} {info : Value} {r : Registry}
    (h : (register (.empty hiddenInputs maxEnumValues false) make here info).run s = (.ok r, s')) :
    ∃ infos, valuesOf info = .ok infos ∧ Registering.AllFrom infos r := by
  unfold register at h
  obtain ⟨embeddings, s₁, -, h⟩ := of_run_bind h
  obtain ⟨r₁, hembeddings, hembedded⟩ :=
    Registering.run_addEmbeddings embeddings (.empty hiddenInputs maxEnumValues false)
  have hsound := Registry.sound_initial hiddenInputs maxEnumValues (some embeddings)
  rw [Registry.initial, hembeddings] at hsound
  dsimp only at h
  rw [run_bind_ok hembeddings] at h
  cases hinfos : valuesOf info with
  | error e =>
    rw [hinfos, run_bind_error (Registering.run_check _ r₁)] at h
    obtain ⟨_, s₂, -, h⟩ := of_run_bind h
    obtain ⟨_, s₃, hcheck, -⟩ := of_run_bind h
    cases hcheck
  | ok infos =>
    have hfrom : Registering.AllFrom infos ((Registering.addAll make infos).run r₁).2 := by
      refine Registering.from_addAll hsound ?_ make (List.Subset.refl infos)
      intro node hnode
      rw [hembedded.nodes] at hnode
      cases hnode
    rw [hinfos, run_bind_ok (Registering.run_check _ r₁)] at h
    generalize (Registering.addAll make infos).run r₁ = p at h hfrom
    obtain ⟨_, s₂, -, h⟩ := of_run_bind h
    obtain ⟨_, s₃, -, h⟩ := of_run_bind h
    obtain ⟨_, s₄, -, h⟩ := of_run_bind h
    cases h
    exact ⟨infos, rfl, hfrom⟩

end SessionM

end Flowscript
