import Flowscript.Proofs.Registry.Stages

/-!
# What identifiers stand for

The nodes of a registry are those that its identifiers stand for, and what is bound without a name
lies under the identifiers that are kept for enumerations. So it can be told from the bindings
whether the class identifier of a name stands for the node of that name.
-/

namespace Flowscript.Registry

open List

variable {r r' : Registry} {held : List String} {id name : String}

def StandsFor (r : Registry) (id name : String) : Prop :=
  ∃ className, Table.find? id r.vars = some (.node name className)

instance (r : Registry) (id name : String) : Decidable (r.StandsFor id name) :=
  decidable_of_iff ((Table.find? id r.vars).any fun t => match t with
      | .node raw _ => raw == name
      | _ => false) <| by
    unfold StandsFor
    cases Table.find? id r.vars with
    | none => simp
    | some t => cases t <;> simp

instance (r : Registry) (raw id : String) : Decidable (r.Binds raw id) :=
  decidable_of_iff ((Table.find? id r.vars).bind TypeRef.raw? = some raw) Option.bind_eq_some_iff

theorem StandsFor.binds (h : r.StandsFor id name) : r.Binds name id := by
  obtain ⟨className, hnode⟩ := h
  exact ⟨_, hnode, rfl⟩

/-- The registered nodes are those that identifiers stand for. -/
def Listed (r : Registry) : Prop := ∀ name, name ∈ r.nodes.map Prod.fst ↔ ∃ id, r.StandsFor id name

theorem Grows.standsFor_iff (h : r.Grows r') (hr : r.Sound held) (id name : String) :
    r'.StandsFor id name ↔ r.StandsFor id name :=
  exists_congr fun className => h.bound hr id name className

theorem Listed.of_grows (hl : r.Listed) (hr : r.Sound held) (h : r.Grows r') : r'.Listed := by
  intro name
  rw [h.nodes, hl name]
  exact exists_congr fun id => (h.standsFor_iff hr id name).symm

theorem Listed.setNode (hl : r.Listed) (hfree : ∀ name, ¬ r.StandsFor id name) (name : String)
    (className : Option String) (entry : NodeEntry) (stubs : List String) :
    Listed { r.setVar id (.node name className) with
      nodeStubs := stubs, nodes := Table.put name entry r.nodes } := by
  intro other
  have hkeys : other ∈ (Table.put name entry r.nodes).map Prod.fst ↔
      name = other ∨ other ∈ r.nodes.map Prod.fst := by
    rw [← not_iff_not, ← Table.find?_eq_none_iff, Table.find?_put, not_or, ← Table.find?_eq_none_iff]
    by_cases hname : name = other
    · simp [hname]
    · simp [hname]
  refine hkeys.trans ⟨?_, ?_⟩
  · rintro (rfl | hold)
    · exact ⟨id, className, Table.find?_put_self id _ r.vars⟩
    · obtain ⟨id', className', hnode⟩ := (hl other).mp hold
      -- the other node stands under another identifier
      have hne : id ≠ id' := fun heq => hfree other (heq ▸ ⟨className', hnode⟩)
      exact ⟨id', className', (Table.find?_put_of_ne hne _ r.vars).trans hnode⟩
  · rintro ⟨id', className', hnode⟩
    have hfind := (find?_setVar r id id' (.node name className)).symm.trans hnode
    by_cases hid : id = id'
    · rw [if_pos hid] at hfind
      cases hfind
      exact .inl rfl
    · rw [if_neg hid] at hfind
      exact .inr ((hl other).mpr ⟨id', className', hfind⟩)

theorem listed_addNode (hr : r.Sound held) (hl : r.Listed) (modules : Modules)
    (make : NodeEntry → Except Fault (Option String)) (info : Value) :
    ((Registering.addNode modules make info).run r).2.Listed := by
  have hreads (name id : String) :
      (r.setVar id (.claimed id name)).Grows (Registering.readFor modules info r name id).2 :=
    (Hinting.evolving_readNode.registry _ (r.setVar id (.claimed id name)) hr.imports).grows
  have hadded := Registering.added_addNode hr modules make info
  generalize (Registering.addNode modules make info).run r = p at hadded
  cases hadded with
  | unnamed _ => exact hl
  | known _ _ => exact hl
  | @unread name id _ _ _ hresolve hread =>
    have hgrows := (Grows.claim hresolve).trans (hreads name id)
    rw [hread] at hgrows
    exact hl.of_grows hr hgrows
  | @unmade name id _ _ _ _ _ _ hresolve hread _ =>
    have hgrows := (Grows.claim hresolve).trans (hreads name id)
    rw [hread] at hgrows
    exact hl.of_grows hr (hgrows.trans (.aside rfl rfl rfl))
  | @made name id _ _ _ className r' _ hresolve hread _ =>
    have hclaimed : r.Grows (r.setVar id (.claimed id name)) := .claim hresolve
    have hread' := hreads name id
    rw [hread] at hread'
    refine Listed.setNode (hl.of_grows hr (hclaimed.trans hread')) (fun other hstands => ?_) _ _ _ _
    -- what is read leaves the identifier claimed
    obtain ⟨_, hnode⟩ := (hread'.standsFor_iff (hr.of_evolves hclaimed.evolves) id other).mp hstands
    rw [find?_setVar, if_pos rfl] at hnode
    cases hnode

theorem listed_addNodes (hr : r.Sound held) (hl : r.Listed) (added : List Adding) :
    (r.addNodes added).Listed := by
  induction added generalizing r with
  | nil => exact hl
  | cons a rest ih =>
    exact ih (hr.of_evolves (Registering.evolves_addNode hr a.modules a.make a.info))
      (listed_addNode hr hl a.modules a.make a.info)

/-- What is bound without a name lies under identifiers that are kept. -/
def Covered (held : List String) (r : Registry) : Prop :=
  ∀ id t, Table.find? id r.vars = some t → t.raw? = none → id ∈ held

theorem Covered.of_change (hc : r.Covered held) (hr : r.Sound held) (h : r.Change r') :
    r'.Covered held := by
  -- what is claimed or bound has a name
  have hset {id : String} {t : TypeRef} (ht : t.raw? = none → id ∈ held) : (r.setVar id t).Covered held := by
    intro other u hu hnone
    rw [find?_setVar] at hu
    by_cases hid : id = other
    · rw [if_pos hid] at hu
      cases hu
      exact hid ▸ ht hnone
    · rw [if_neg hid] at hu
      exact hc other u hu hnone
  cases h with
  | aside hvars _ =>
    intro id t ht hnone
    exact hc id t (hvars ▸ ht) hnone
  | claim _ => exact hset nofun
  | bind _ ht =>
    refine hset fun hnone => ?_
    rw [ht] at hnone
    cases hnone
  | share hshared =>
    obtain ⟨entry, hentry, rfl⟩ := mem_map.mp hshared
    exact hset fun _ => hr.shared entry hentry

theorem Covered.of_evolves (hc : r.Covered held) (hr : r.Sound held) (h : r.Evolves r') :
    r'.Covered held := by
  induction h with
  | refl => exact hc
  | tail hevolves hchange ih => exact ih.of_change (hr.of_evolves hevolves) hchange

/-- Nodes are added one after another without a fault. -/
def AddsAll (r : Registry) : List Adding → Prop
  | [] => True
  | a :: rest => ((Registering.addNode a.modules a.make a.info).run r).1 = .ok () ∧
      AddsAll ((Registering.addNode a.modules a.make a.info).run r).2 rest

theorem binds_addNode (hr : r.Sound held) {modules : Modules}
    {make : NodeEntry → Except Fault (Option String)} {info : Value}
    (hname : Registering.named info = .ok name)
    (h : ((Registering.addNode modules make info).run r).1 = .ok ()) :
    ∃ id, ((Registering.addNode modules make info).run r).2.Binds name id := by
  have hadded := Registering.added_addNode hr modules make info
  generalize (Registering.addNode modules make info).run r = p at hadded h
  cases hadded with
  | unnamed _ => cases h
  | @known name' t hname' hresolve =>
    obtain rfl := Except.ok.inj (hname.symm.trans hname')
    have hfound := r.resolve_cases name
    rw [hresolve] at hfound
    cases hfound with
    | bound _ ht hraw => exact ⟨_, t, ht, hraw⟩
  | unread _ _ _ => cases h
  | unmade _ _ _ _ => cases h
  | @made name' id _ _ _ className r' hname' _ _ _ =>
    obtain rfl := Except.ok.inj (hname.symm.trans hname')
    exact ⟨id, .node name className, Table.find?_put_self id _ r'.vars, rfl⟩

theorem AddsAll.binds {added : List Adding} (h : r.AddsAll added) (hr : r.Sound held) {a : Adding}
    (ha : a ∈ added) (hname : Registering.named a.info = .ok name) :
    ∃ id, (r.addNodes added).Binds name id := by
  induction added generalizing r with
  | nil => cases ha
  | cons first rest ih =>
    have hfirst := Registering.evolves_addNode hr first.modules first.make first.info
    rcases mem_cons.mp ha with rfl | hrest
    · obtain ⟨id, hbinds⟩ := binds_addNode hr hname h.1
      exact ⟨id, hbinds.of_evolves (hr.of_evolves hfirst) (evolves_addNodes (hr.of_evolves hfirst) rest)⟩
    · exact ih h.2 (hr.of_evolves hfirst) hrest

theorem Sound.eq_classId_iff (hr : r.Sound held) (hc : r.Covered held) (h : r.Binds name id) :
    id = Identifier.classId name ↔ Identifier.classId name ∉ held ∧
      ∀ raw, r.Binds raw (Identifier.classId name) → raw = name := by
  constructor
  · rintro rfl
    exact ⟨hr.not_mem_kept h, fun raw hraw => hraw.unique h⟩
  · rintro ⟨hkept, hsole⟩
    obtain ⟨n, rfl, hpassed⟩ := hr.chained name id h
    cases n with
    | zero => exact candidate_zero name
    | succ n =>
      -- the class identifier was passed, so something else is bound under it
      obtain ⟨t, ht, hne⟩ := hpassed 0 (by omega)
      rw [candidate_zero] at ht
      cases hraw : t.raw? with
      | none => exact absurd (hc _ t ht hraw) hkept
      | some raw => exact absurd (hsole raw ⟨t, ht, hraw⟩ ▸ hraw) hne

theorem Sound.standsFor_classId_iff (hr : r.Sound held) (hc : r.Covered held) (hl : r.Listed)
    (h : r.Binds name id) :
    r.StandsFor (Identifier.classId name) name ↔ name ∈ r.nodes.map Prod.fst ∧
      Identifier.classId name ∉ held ∧ ∀ raw, r.Binds raw (Identifier.classId name) → raw = name := by
  rw [← hr.eq_classId_iff hc h]
  constructor
  · intro hstands
    exact ⟨(hl name).mpr ⟨_, hstands⟩, hr.id_unique h hstands.binds⟩
  · rintro ⟨hnode, rfl⟩
    obtain ⟨id, hstands⟩ := (hl name).mp hnode
    exact hr.id_unique h hstands.binds ▸ hstands

section Initial

variable (hiddenInputs : Bool) (maxEnumValues : Int) (embeddings : Option (Except Fault Value))

theorem nodes_initial : (initial hiddenInputs maxEnumValues embeddings).nodes = [] := by
  cases embeddings with
  | none => rfl
  | some listed =>
    obtain ⟨r', hrun, hembedded⟩ :=
      Registering.run_addEmbeddings listed (empty hiddenInputs maxEnumValues false)
    rw [initial, hrun]
    exact hembedded.nodes

theorem listed_initial : (initial hiddenInputs maxEnumValues embeddings).Listed := by
  intro name
  rw [nodes_initial]
  refine ⟨fun h => absurd h not_mem_nil, fun ⟨id, className, hnode⟩ => ?_⟩
  have hraw := (unnamed_initial hiddenInputs maxEnumValues embeddings).raw? _ (Table.mem_of_find? hnode)
  cases hraw

theorem covered_initial : (initial hiddenInputs maxEnumValues embeddings).Covered
    ((initial hiddenInputs maxEnumValues embeddings).vars.map Prod.fst) :=
  fun _ _ ht _ => mem_map_of_mem (Table.mem_of_find? ht)

end Initial

end Flowscript.Registry
