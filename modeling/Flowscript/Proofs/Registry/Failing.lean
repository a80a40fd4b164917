import Flowscript.Proofs.Registry.Stages

/-!
# Registrations that fail

An identifier is claimed for a node before its description is read, and a failure does not give it
back. So a failure leaves the claim behind, unless not even the name could be read, and whoever comes
with the same name afterwards is told that the node exists already.
-/

namespace Flowscript

open Registering

namespace Registry

structure Keeps (r r' : Registry) : Prop where
  nodes : r'.nodes = r.nodes
  stubs : r'.nodeStubs = r.nodeStubs
  taken : ∀ id, Table.find? id r.vars ≠ none → Table.find? id r'.vars ≠ none

theorem keeps_setVar (r : Registry) (id : String) (t : TypeRef) : r.Keeps (r.setVar id t) := by
  refine ⟨rfl, rfl, fun other hother => ?_⟩
  rw [find?_setVar]
  by_cases hid : id = other
  · rw [if_pos hid]
    exact Option.some_ne_none t
  · rw [if_neg hid]
    exact hother

theorem admits_keeps : Admits Keeps where
  refl _ := ⟨rfl, rfl, fun _ hid => hid⟩
  trans h h' := ⟨h'.nodes.trans h.nodes, h'.stubs.trans h.stubs, fun id hid => h'.taken id (h.taken id hid)⟩
  read {r _} h := by
    cases h with
    | log _ => exact ⟨rfl, rfl, fun _ hid => hid⟩
    | @declare raw id _ =>
      have hclaimed := keeps_setVar r id (.claimed id raw)
      have hdeclared := keeps_setVar (r.setVar id (.claimed id raw)) id (.data id raw)
      exact ⟨rfl, rfl, fun other hother => hdeclared.taken other (hclaimed.taken other hother)⟩
    | share _ _ _ => exact ⟨rfl, rfl, (keeps_setVar r _ _).taken⟩
  lookUp _ package _ := ⟨keeps_setVar _ package _, ⟨rfl, rfl, fun _ hid => hid⟩⟩

end Registry

namespace Registering

variable {r r' : Registry} {held : List String} {modules : Modules} {info : Value} {e : Fault}
  {name id : String}

def virtual (_ : NodeEntry) : Except Fault (Option String) := .ok none

theorem taken_of_readFor {result : Except Fault ((String × List TypeRef) × Findings)}
    (h : readFor modules info r name id = (result, r')) :
    r'.nodes = r.nodes ∧ r'.nodeStubs = r.nodeStubs ∧ Table.find? id r'.vars ≠ none := by
  have hkeeps : (r.setVar id (.claimed id name)).Keeps (readFor modules info r name id).2 :=
    (Hinting.leads_readNode Registry.admits_keeps).registry _ _
  rw [h] at hkeeps
  refine ⟨hkeeps.nodes, hkeeps.stubs, hkeeps.taken id ?_⟩
  rw [Registry.find?_setVar, if_pos rfl]
  exact Option.some_ne_none _

theorem of_addNode_error (h : (addNode modules virtual info).run r = (.error e, r')) :
    (named info = .error e ∧ r' = r) ∨
      ∃ name id, named info = .ok name ∧ r.resolve name = .inr id ∧ r'.nodes = r.nodes ∧
        Table.find? id r'.vars ≠ none := by
  rcases addNode_cases modules virtual info r with
    hadded | ⟨name, id, stub, types, findings, r₁, e', hname, hresolve, hread, -, hrun⟩
  · rw [h] at hadded
    cases hadded with
    | unnamed hname => exact .inl ⟨hname, rfl⟩
    | @unread name id _ _ hname hresolve hread =>
      obtain ⟨hnodes, -, htaken⟩ := taken_of_readFor hread
      exact .inr ⟨name, id, hname, hresolve, hnodes, htaken⟩
    | unmade _ _ _ hmake => cases hmake
  · rw [h] at hrun
    cases hrun
    obtain ⟨hnodes, -, htaken⟩ := taken_of_readFor hread
    exact .inr ⟨name, id, hname, hresolve, hnodes, htaken⟩

/-- Where dotted names are not looked up, a failure leaves the identifier claimed. -/
theorem claimed_of_addNode_error (hr : r.Sound held) (hname : named info = .ok name)
    (hresolve : r.resolve name = .inr id) (h : (addNode modules virtual info).run r = (.error e, r')) :
    r'.nodeStubs = r.nodeStubs ∧ Table.find? id r'.vars = some (.claimed id name) := by
  have hadded := added_addNode hr modules virtual info
  rw [h] at hadded
  cases hadded with
  | unnamed hname' => cases hname.symm.trans hname'
  | unread hname' hresolve' hread =>
    cases hname.symm.trans hname'
    cases hresolve.symm.trans hresolve'
    have hreads := reads_readFor hr.imports modules info name id
    rw [hread] at hreads
    refine ⟨(taken_of_readFor hread).2.1, hreads.find?_eq (hr.of_change (.claim hresolve)) ?_ rfl⟩
    rw [Registry.find?_setVar, if_pos rfl]
  | unmade _ _ _ hmake => cases hmake

theorem run_addNode_of_binds (hr : r.Sound held) (make : NodeEntry → Except Fault (Option String))
    (hname : named info = .ok name) (hbinds : r.Binds name id) :
    (addNode modules make info).run r =
      (.ok (), r.note ("ComfyScript: Node already exists: " ++ info.text)) := by
  obtain ⟨t, hresolve, -⟩ := hr.resolve_of_binds hbinds
  have hclaim := run_claim name r
  rw [hresolve] at hclaim
  unfold addNode
  rw [← named.eq_def info, hname, run_bind_ok (run_check _ r), run_bind_ok hclaim]
  rfl

end Registering

namespace Registry

variable {r r' : Registry}

def Loads (r : Registry) (modules : Modules) (info : Value) : Prop :=
  ∃ name entry r', named info = .ok name ∧ (addNode modules virtual info).run r = (.ok (), r') ∧
    Table.find? name r'.nodes = some entry ∧ entry.info = info

/-- Nothing of the description is left, and a better one with its name is registered as before. -/
structure ExportsNothing (r : Registry) (info : Value) (r' : Registry) : Prop where
  binding : ∀ name id, named info = .ok name → r.resolve name = .inr id →
    Table.find? id r'.vars = Table.find? id r.vars
  nodes : r'.nodes = r.nodes
  stubs : r'.nodeStubs = r.nodeStubs
  corrected : ∀ modules better, named better = named info → r.Loads modules better → r'.Loads modules better

/-- A registration that fails leaves nothing behind if and only if not even the name could be read.
Otherwise the identifier, free before, is taken; and in a registry that nodes are added to without
looking up dotted names it stays claimed, and the name is refused from then on, whatever is added in
between. -/
theorem exportsNothing_iff_unnamed {modules : Modules} {info : Value} {e : Fault}
    (h : (addNode modules virtual info).run r = (.error e, r')) :
    (r.ExportsNothing info r' ↔ ∃ e', named info = .error e') ∧ r'.nodes = r.nodes ∧
      ∀ name, named info = .ok name → ∃ id, r.resolve name = .inr id ∧ Table.find? id r.vars = none ∧
        Table.find? id r'.vars ≠ none ∧
        ∀ hiddenInputs maxEnumValues embeddings,
          (initial hiddenInputs maxEnumValues embeddings).Evolves r →
          r'.nodeStubs = r.nodeStubs ∧ Table.find? id r'.vars = some (.claimed id name) ∧
          ∀ added modules' better, named better = .ok name →
            (addNode modules' virtual better).run (r'.addNodes added) = (.ok (), (r'.addNodes added).note
              ("ComfyScript: Node already exists: " ++ better.text)) := by
  rcases of_addNode_error h with ⟨hname, rfl⟩ | ⟨name, id, hname, hresolve, hnodes, htaken⟩
  · refine ⟨⟨fun _ => ⟨e, hname⟩, fun _ => ?_⟩, rfl, fun name hname' => ?_⟩
    · exact ⟨fun _ _ _ _ => rfl, rfl, rfl, fun _ _ _ hloads => hloads⟩
    · cases hname.symm.trans hname'
  · -- the identifier is claimed before anything else of the description is read
    obtain ⟨-, -, -, hfree⟩ := of_resolve_inr hresolve
    refine ⟨⟨fun hnothing => ?_, fun hunnamed => ?_⟩, hnodes, fun name' hname' => ?_⟩
    · have hbinding := hnothing.binding name id hname hresolve
      exact absurd (hbinding.trans hfree) htaken
    · obtain ⟨e', hname'⟩ := hunnamed
      cases hname.symm.trans hname'
    · cases hname.symm.trans hname'
      refine ⟨id, hresolve, hfree, htaken, fun hiddenInputs maxEnumValues embeddings hstage => ?_⟩
      have hr := (sound_initial hiddenInputs maxEnumValues embeddings).of_evolves hstage
      obtain ⟨hstubs, hclaimed⟩ := claimed_of_addNode_error hr hname hresolve h
      refine ⟨hstubs, hclaimed, fun added modules' better hbetter => ?_⟩
      have hevolves := evolves_addNode hr modules virtual info
      rw [h] at hevolves
      have hr' := hr.of_evolves hevolves
      have hlater := evolves_addNodes hr' added
      have hbinds : r'.Binds name id := ⟨_, hclaimed, rfl⟩
      exact run_addNode_of_binds (hr'.of_evolves hlater) virtual hbetter (hbinds.of_evolves hr' hlater)

def uncategorized : Value :=
  .dict [("name", .str "Load"), ("input", .dict [("required", .dict [("x", .list [.str "INT"])])]),
    ("output", .list []), ("output_name", .list []), ("display_name", .str "Load"),
    ("description", .str ""), ("output_node", .bool false)]

/-- What is read of it fails in the end, with the identifier claimed. -/
theorem exportsNothing_iff_unnamed_uncategorized :
    ∃ e r', (addNode .none virtual uncategorized).run (empty false 2000 false) = (.error e, r') ∧
      ¬ (empty false 2000 false).ExportsNothing uncategorized r' ∧
      Table.find? "Load" r'.vars = some (.claimed "Load" "Load") := by
  have hname : named uncategorized = .ok "Load" := rfl
  have hnew : (empty false 2000 false).resolve "Load" = .inr "Load" :=
    Sum.getRight?_eq_some_iff.mp (by decide +kernel)
  have hfails : ((addNode .none virtual uncategorized).run (empty false 2000 false)).1.isOk = false := by
    decide +kernel
  cases hadd : (addNode .none virtual uncategorized).run (empty false 2000 false) with
  | mk result r' =>
    rw [hadd] at hfails
    cases result with
    | ok _ => cases hfails
    | error e =>
      obtain ⟨hiff, -, hclaimed⟩ := exportsNothing_iff_unnamed hadd
      obtain ⟨id, hresolve, -, -, hstays⟩ := hclaimed "Load" hname
      cases hnew.symm.trans hresolve
      refine ⟨e, r', rfl, fun hnothing => ?_, (hstays false 2000 none .refl).2.1⟩
      obtain ⟨e', hunnamed⟩ := hiff.mp hnothing
      cases hunnamed

end Registry

end Flowscript
