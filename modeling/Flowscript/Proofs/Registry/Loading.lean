import Flowscript.Proofs.Registry.Demands
import Flowscript.Proofs.Registry.Failing
import Mathlib.Data.List.Pairwise

/-!
# Loading many nodes

Names of nodes and names of data types are bound in one table. So descriptions that are fine one by
one are all loaded if and only if none of them demands a data type with the name of another.
-/

namespace Flowscript

open List Registering

def demandedNames (hidden : Bool) (info : Value) : List String :=
  inputNames hidden info ++ outputDataNames info

namespace Registry

variable {hidden : Bool} {most : Int} {modules : Modules} {r r' s : Registry} {name id : String} {info : Value}

def Adds (modules : Modules) (r : Registry) (p : String × Value) : Prop :=
  ((addNode modules virtual p.2).run r).2.nodes.map Prod.fst = r.nodes.map Prod.fst ++ [p.1]

theorem Listed.not_mem_nodes (hl : r.Listed) (h : ¬ r.Bound name) : name ∉ r.nodes.map Prod.fst := by
  intro hmem
  obtain ⟨id, hstands⟩ := (hl name).mp hmem
  exact h ⟨id, hstands.binds⟩

theorem nodes_same_or_adds (modules : Modules) (hr : r.Sound keptIds) (hl : r.Listed)
    (hname : named info = .ok name) :
    ((addNode modules virtual info).run r).2.nodes = r.nodes ∧
        (∀ id p r', r.resolve name = .inr id → readFor modules info r name id ≠ (.ok p, r')) ∨
      r.Adds modules (name, info) ∧ ∃ id p findings r' stubs entry, r.resolve name = .inr id ∧
        readFor modules info r name id = (.ok (p, findings), r') ∧
        ((addNode modules virtual info).run r).2 = { r'.setVar id (.node name none) with
          nodeStubs := stubs, nodes := Table.put name entry r'.nodes } := by
  have hadded := added_addNode hr modules virtual info
  unfold Adds
  dsimp only
  generalize (addNode modules virtual info).run r = run at hadded
  cases hadded with
  | unnamed hname' => cases hname.symm.trans hname'
  | known hname' hresolve =>
    cases hname.symm.trans hname'
    refine .inl ⟨rfl, fun id p r' hresolve' _ => ?_⟩
    cases hresolve.symm.trans hresolve'
  | unread hname' hresolve hread =>
    cases hname.symm.trans hname'
    refine .inl ⟨(taken_of_readFor hread).1, fun id p r' hresolve' hread' => ?_⟩
    cases hresolve.symm.trans hresolve'
    cases hread.symm.trans hread'
  | unmade _ _ _ hmake => cases hmake
  | made hname' hresolve hread hmake =>
    cases hname.symm.trans hname'
    cases hmake
    refine .inr ⟨?_, _, _, _, _, _, _, hresolve, hread, rfl⟩
    have hnew := hl.not_mem_nodes (not_bound_of_resolve hr hresolve)
    rw [(taken_of_readFor hread).1, Table.put_eq_append hnew, map_append]
    rfl

theorem not_adds_of_nodes_eq (h : ((addNode modules virtual info).run r).2.nodes = r.nodes) :
    ¬ r.Adds modules (name, info) := by
  intro hadds
  unfold Adds at hadds
  rw [h] at hadds
  exact absurd (congrArg List.length hadds) (by simp)

theorem Reads.shares {r₀ : Registry} (h : r.Reads r')
    (h₀ : ∀ id old, Table.find? id r₀.sharedValues = some old → id ∉ keptIds) (hshares : r₀.Shares r) :
    r₀.Shares r' := by
  induction h with
  | refl => exact hshares
  | tail _ hstep ih =>
    intro id old hold
    cases hstep with
    | log _ => exact ih id old hold
    | declare _ => exact ih id old hold
    | share hid _ _ =>
      rw [Table.find?_put_of_ne]
      · exact ih id old hold
      · rintro rfl
        exact h₀ _ old hold hid

theorem mem_demandedNames_iff {raw : String} : raw ∈ demandedNames hidden info ↔
    raw ∈ inputNames hidden info ++ (outputDataNames info ++ outputDataNames info) := by
  simp only [demandedNames, mem_append, or_self]

section Added

variable (hr : Ready hidden most r) (hl : r.Listed) (hname : named info = .ok name)

include hr hl hname

/-- A node that is added binds its name and the names that it demands. Its name was not bound before,
and no node had one of the others. -/
theorem bound_of_adds (h : r.Adds modules (name, info)) :
    (¬ r.Bound name ∧ ∀ raw ∈ demandedNames hidden info, raw ∉ r.nodes.map Prod.fst) ∧
      ∀ raw, ((addNode modules virtual info).run r).2.Bound raw ↔
        r.Bound raw ∨ raw = name ∨ raw ∈ demandedNames hidden info := by
  rcases nodes_same_or_adds modules hr.sound hl hname with
    ⟨hsame, -⟩ | ⟨-, id, p, findings, r₁, stubs, entry, hresolve, hread, hrun⟩
  · exact absurd h (not_adds_of_nodes_eq hsame)
  have hcarries : Hinting.Carries hidden most _ _ (Hinting.readNode ⟨info, id, modules⟩)
      (Hinting.readNode ⟨info, id, modules⟩) := Hinting.carries_readNode
  obtain ⟨-, hdemands, -⟩ := hcarries (hr.claim hresolve) hread
  obtain ⟨-, hbinds⟩ := evolves_readFor hr.sound modules info hresolve
  rw [hread] at hbinds
  refine ⟨⟨not_bound_of_resolve hr.sound hresolve, fun raw hraw hmem => ?_⟩, fun raw => ?_⟩
  · obtain ⟨id', hstands⟩ := (hl raw).mp hmem
    refine hdemands.free raw (mem_demandedNames_iff.mp hraw) id' ?_
    exact ((Grows.claim hresolve).standsFor_iff hr.sound id' raw).mpr hstands
  · have hnode : (r₁.setVar id (.node name none)).Bound raw ↔ r₁.Bound raw ∨ raw = name :=
      bound_setVar_iff rfl fun _ h => h.unique hbinds
    rw [hrun]
    refine hnode.trans ?_
    rw [hdemands.bound, bound_claim_iff hresolve, ← mem_demandedNames_iff]
    tauto

/-- A description that is accepted elsewhere is added unless its name is bound, or a node has a name
that it demands. -/
theorem adds_of_accepted {r₀ : Registry} (hr₀ : Ready hidden most r₀) (hfresh : ∀ raw, ¬ r₀.Bound raw)
    (hshares : r₀.Shares r) (haccepted : ((addNode modules virtual info).run r₀).1 = .ok ())
    (hnew : ¬ r.Bound name) (hfree : ∀ raw ∈ demandedNames hidden info, raw ∉ r.nodes.map Prod.fst) :
    r.Adds modules (name, info) := by
  rcases nodes_same_or_adds modules hr.sound hl hname with ⟨-, hunread⟩ | ⟨hadds, -⟩
  · cases hresolve : r.resolve name with
    | inl t => exact absurd (bound_of_resolve hresolve) hnew
    | inr id =>
      obtain ⟨r₀', hrun⟩ : ∃ r₀', (addNode modules virtual info).run r₀ = (.ok (), r₀') :=
        ⟨_, Prod.ext haccepted rfl⟩
      cases added_of_run_ok hrun with
      | known hname' hresolve₀ => exact absurd (bound_of_resolve hresolve₀) (hfresh _)
      | @made name' id₀ _ _ _ _ _ hname' hresolve₀ hread₀ _ =>
        cases hname.symm.trans hname'
        have hcarries : Hinting.Carries hidden most _ _ (Hinting.readNode ⟨info, id₀, modules⟩)
            (Hinting.readNode ⟨info, id, modules⟩) := Hinting.carries_readNode
        obtain ⟨-, -, hfollows⟩ := hcarries (hr₀.claim hresolve₀) hread₀
        obtain ⟨p, findings, r', hread, -⟩ := hfollows ⟨[], "", []⟩ _ (hr.claim hresolve) hshares
          fun raw hraw id' hstands => hfree raw (mem_demandedNames_iff.mpr hraw)
            ((hl raw).mpr ⟨id', ((Grows.claim hresolve).standsFor_iff hr.sound id' raw).mp hstands⟩)
        exact absurd hread (hunread id _ _ hresolve)
  · exact hadds

end Added

theorem Classless.setVar (h : r.Classless) (id : String) {t : TypeRef}
    (ht : ∀ raw className, t = .node raw className → className = none) : (r.setVar id t).Classless := by
  intro other raw className hnode
  rw [find?_setVar] at hnode
  by_cases hid : id = other
  · rw [if_pos hid] at hnode
    exact ht raw className (Option.some.inj hnode)
  · rw [if_neg hid] at hnode
    exact h other raw className hnode

theorem Reached.ready (h : r.Reached (fun _ => False) hidden most) : Ready hidden most r := by
  have hinduct := h.induct (fun r => Faithful r.vars r.sharedValues ∧ r.Classless ∧
    r.hiddenInputs = hidden ∧ r.maxEnumValues = most) ?_ ?_
  · obtain ⟨hsound, hfaithful, hclassless, hhidden, hmost⟩ := hinduct
    exact ⟨hsound, hfaithful, hclassless, hhidden, hmost⟩
  · refine ⟨⟨nodup_nil, fun _ _ h => by cases h⟩, fun id raw className hnode => ?_, rfl, rfl⟩
    have hnone := (unnamed_empty hidden most).raw? _ (Table.mem_of_find? hnode)
    cases hnone
  · intro r r' hP hstep
    obtain ⟨hfaithful, hclassless, hsettings⟩ := hP
    refine ⟨hfaithful.of_step hstep, ?_⟩
    cases hstep with
    | read hread =>
      cases hread with
      | log _ => exact ⟨hclassless, hsettings⟩
      | declare _ =>
        refine ⟨Classless.setVar (hclassless.setVar _ ?_) _ ?_, hsettings⟩
        · rintro _ _ ⟨⟩
        · rintro _ _ ⟨⟩
      | share _ _ _ => exact ⟨hclassless.setVar _ (by rintro _ _ ⟨⟩), hsettings⟩
    | claim _ => exact ⟨hclassless.setVar _ (by rintro _ _ ⟨⟩), hsettings⟩
    | embed hembedded =>
      cases hembedded with
      | noted _ => exact ⟨hclassless, hsettings⟩
      | listed _ _ _ => exact ⟨hclassless.setVar _ (by rintro _ _ ⟨⟩), hsettings⟩
    | @node _ _ className _ _ _ hnamed =>
      refine ⟨hclassless.setVar _ fun _ _ h => ?_, hsettings⟩
      cases h
      cases className with
      | none => rfl
      | some name => exact absurd (hnamed name rfl) not_false
    | stub _ => exact ⟨hclassless, hsettings⟩

def load (modules : Modules) (r : Registry) (added : List (String × Value)) : Registry :=
  r.addNodes (added.map fun p => ⟨modules, virtual, p.2⟩)

/-- No description is reported as there already, and the nodes are those that were added. -/
structure AllLoaded (modules : Modules) (r : Registry) (added : List (String × Value)) : Prop where
  unreported : ∀ before p after, added = before ++ p :: after →
    (addNode modules virtual p.2).run (r.load modules before) ≠
      (.ok (), (r.load modules before).note ("ComfyScript: Node already exists: " ++ p.2.text))
  nodes : (r.load modules added).nodes.map Prod.fst = added.map Prod.fst

def AddsEach (modules : Modules) : Registry → List (String × Value) → Prop
  | _, [] => True
  | r, p :: rest => r.Adds modules p ∧ AddsEach modules ((addNode modules virtual p.2).run r).2 rest

variable {r₀ : Registry} {added : List (String × Value)}

theorem AddsEach.nodes (h : AddsEach modules r added) :
    (r.load modules added).nodes.map Prod.fst = r.nodes.map Prod.fst ++ added.map Prod.fst := by
  induction added generalizing r with
  | nil => exact (append_nil _).symm
  | cons p rest ih =>
    have hadds : _ = _ := h.1
    refine (ih h.2).trans ?_
    rw [hadds, append_assoc]
    rfl

theorem AddsEach.adds {before after : List (String × Value)} {p : String × Value}
    (h : AddsEach modules r (before ++ p :: after)) : (r.load modules before).Adds modules p := by
  induction before generalizing r with
  | nil => exact h.1
  | cons first rest ih => exact ih h.2

theorem addsEach_of_length (hr : r.Sound keptIds) (hl : r.Listed)
    (hnamed : ∀ p ∈ added, named p.2 = .ok p.1) :
    (r.load modules added).nodes.length ≤ r.nodes.length + added.length ∧
      ((r.load modules added).nodes.length = r.nodes.length + added.length → AddsEach modules r added) := by
  induction added generalizing r with
  | nil => exact ⟨Nat.le_refl _, fun _ => trivial⟩
  | cons p rest ih =>
    obtain ⟨hle, heq⟩ := ih (hr.of_evolves (evolves_addNode hr modules virtual p.2))
      (listed_addNode hr hl modules virtual p.2) fun q hq => hnamed q (.tail _ hq)
    change (r.load modules (p :: rest)).nodes.length ≤ _ at hle
    change (r.load modules (p :: rest)).nodes.length = _ → _ at heq
    rw [length_cons]
    rcases nodes_same_or_adds modules hr hl (hnamed p (.head _)) with ⟨hsame, -⟩ | ⟨hadds, -⟩
    · rw [hsame] at hle
      exact ⟨by omega, fun h => by omega⟩
    · have hlength := congrArg List.length hadds
      simp only [length_map, length_append, length_singleton] at hlength
      rw [hlength] at hle heq
      exact ⟨by omega, fun h => ⟨hadds, heq (by omega)⟩⟩

structure Continues (hidden : Bool) (most : Int) (r₀ r : Registry) : Prop where
  reached : r.Reached (fun _ => False) hidden most
  listed : r.Listed
  shares : r₀.Shares r

theorem Continues.addNode (h : Continues hidden most r₀ r)
    (h₀ : ∀ id old, Table.find? id r₀.sharedValues = some old → id ∉ keptIds) (modules : Modules)
    (info : Value) : Continues hidden most r₀ ((addNode modules virtual info).run r).2 := by
  have hsound := h.reached.ready.sound
  refine ⟨h.reached.add ⟨modules, virtual, info⟩ (fun _ _ h => by cases h),
    listed_addNode hsound h.listed modules virtual info, ?_⟩
  have hadded := added_addNode hsound modules virtual info
  have hreads (name id : String) : r₀.Shares (readFor modules info r name id).2 :=
    (reads_readFor hsound.imports modules info name id).shares h₀ h.shares
  generalize (Registering.addNode modules virtual info).run r = run at hadded
  cases hadded with
  | unnamed _ => exact h.shares
  | known _ _ => exact h.shares
  | @unread name id _ _ _ _ hread =>
    have hshares := hreads name id
    rw [hread] at hshares
    exact hshares
  | unmade _ _ _ hmake => cases hmake
  | @made name id _ _ _ _ _ _ _ hread _ =>
    have hshares := hreads name id
    rw [hread] at hshares
    exact hshares

/-- Two descriptions with different names, neither of which demands the name of the other. -/
def Apart (hidden : Bool) (p q : String × Value) : Prop :=
  p.1 ≠ q.1 ∧ q.1 ∉ demandedNames hidden p.2 ∧ p.1 ∉ demandedNames hidden q.2

theorem addsEach_iff (hr₀ : Ready hidden most r₀) (hfresh : ∀ raw, ¬ r₀.Bound raw)
    (h₀ : ∀ id old, Table.find? id r₀.sharedValues = some old → id ∉ keptIds)
    (hr : Continues hidden most r₀ r) (hnamed : ∀ p ∈ added, named p.2 = .ok p.1)
    (haccepted : ∀ p ∈ added, ((addNode modules virtual p.2).run r₀).1 = .ok ()) :
    AddsEach modules r added ↔ (∀ p ∈ added, ¬ r.Bound p.1 ∧
      ∀ raw ∈ demandedNames hidden p.2, raw ∉ r.nodes.map Prod.fst) ∧ added.Pairwise (Apart hidden) := by
  induction added generalizing r with
  | nil => exact ⟨fun _ => ⟨fun _ h => absurd h not_mem_nil, .nil⟩, fun _ => trivial⟩
  | cons p rest ih =>
    have hready := hr.reached.ready
    have hname := hnamed p (.head _)
    have hadds : r.Adds modules p ↔ ¬ r.Bound p.1 ∧
        ∀ raw ∈ demandedNames hidden p.2, raw ∉ r.nodes.map Prod.fst :=
      ⟨fun h => (bound_of_adds hready hr.listed hname h).1, fun h =>
        adds_of_accepted hready hr.listed hname hr₀ hfresh hr.shares (haccepted p (.head _)) h.1 h.2⟩
    have hrest := ih (hr.addNode h₀ modules p.2) (fun q hq => hnamed q (.tail _ hq))
      fun q hq => haccepted q (.tail _ hq)
    -- what the first one binds is in the way of another if the two are not apart
    have hlater (h : r.Adds modules p) (q : String × Value) :
        (¬ ((Registering.addNode modules virtual p.2).run r).2.Bound q.1 ∧
          ∀ raw ∈ demandedNames hidden q.2,
            raw ∉ ((Registering.addNode modules virtual p.2).run r).2.nodes.map Prod.fst) ↔
        (¬ r.Bound q.1 ∧ ∀ raw ∈ demandedNames hidden q.2, raw ∉ r.nodes.map Prod.fst) ∧
          Apart hidden p q := by
      have hnodes : _ = _ := h
      rw [(bound_of_adds hready hr.listed hname h).2, hnodes]
      simp only [mem_append, mem_singleton]
      constructor
      · rintro ⟨hnew, hfree⟩
        refine ⟨⟨fun h => hnew (.inl h), fun raw hraw h => hfree raw hraw (.inl h)⟩, ?_, ?_, ?_⟩
        · exact fun h => hnew (.inr (.inl h.symm))
        · exact fun h => hnew (.inr (.inr h))
        · exact fun h => hfree p.1 h (.inr rfl)
      · rintro ⟨⟨hnew, hfree⟩, hne, hfirst, hsecond⟩
        refine ⟨?_, ?_⟩
        · rintro (h | h | h)
          · exact hnew h
          · exact hne h.symm
          · exact hfirst h
        · rintro raw hraw (h | rfl)
          · exact hfree raw hraw h
          · exact hsecond hraw
    rw [forall_mem_cons, pairwise_cons, ← hadds, AddsEach, hrest]
    constructor
    · rintro ⟨h, hall, hpairs⟩
      have hboth := fun q hq => (hlater h q).mp (hall q hq)
      exact ⟨⟨h, fun q hq => (hboth q hq).1⟩, fun q hq => (hboth q hq).2, hpairs⟩
    · rintro ⟨⟨h, hall⟩, hapart, hpairs⟩
      exact ⟨h, fun q hq => (hlater h q).mpr ⟨hall q hq, hapart q hq⟩, hpairs⟩

theorem reached_initial (hidden : Bool) (most : Int) (embeddings : Option (Except Fault Value)) :
    (initial hidden most embeddings).Reached (fun _ => False) hidden most := by
  cases embeddings with
  | none => exact .empty
  | some listed => exact .init .empty listed

theorem not_mem_keptIds_initial {embeddings : Option (Except Fault Value)} {old : Value}
    (h : Table.find? id (initial hidden most embeddings).sharedValues = some old) : id ∉ keptIds := by
  cases embeddings with
  | none => cases h
  | some listed =>
    obtain ⟨r', hrun, hembedded⟩ := run_addEmbeddings listed (empty hidden most false)
    rw [initial, hrun] at h
    cases hembedded with
    | noted _ => cases h
    | listed _ _ _ =>
      have hkey : (embeddingsId, _) = (id, old) := mem_singleton.mp (Table.mem_of_find? h) |>.symm
      cases hkey
      decide +kernel

/-- Descriptions with different names, each of which is accepted on its own, are all loaded if and only
if none of them demands a data type with the name of another, in whatever order they are added. -/
theorem allLoaded_iff_apart {embeddings : Option (Except Fault Value)}
    (hnamed : ∀ p ∈ added, named p.2 = .ok p.1) (hdistinct : (added.map Prod.fst).Nodup)
    (haccepted : ∀ p ∈ added,
      ((addNode modules virtual p.2).run (initial hidden most embeddings)).1 = .ok ()) :
    (initial hidden most embeddings).AllLoaded modules added ↔
      ∀ p ∈ added, ∀ q ∈ added, q.1 ∈ demandedNames hidden p.2 → q = p := by
  have hreached := reached_initial hidden most embeddings
  have hready := hreached.ready
  have hfresh (raw : String) : ¬ (initial hidden most embeddings).Bound raw := by
    rintro ⟨id, t, ht, hraw⟩
    rw [(unnamed_initial hidden most embeddings).raw? _ (Table.mem_of_find? ht)] at hraw
    cases hraw
  have heach := addsEach_iff hready hfresh (fun _ _ => not_mem_keptIds_initial)
    ⟨hreached, listed_initial hidden most embeddings, fun _ _ h => h⟩ hnamed haccepted
  rw [nodes_initial] at heach
  have hloaded : (initial hidden most embeddings).AllLoaded modules added ↔
      AddsEach modules (initial hidden most embeddings) added := by
    constructor
    · intro hloaded
      -- each description adds a node at most, so none can be left out
      have hlength := congrArg List.length hloaded.nodes
      rw [List.length_map, List.length_map] at hlength
      apply (addsEach_of_length hready.sound (listed_initial hidden most embeddings) hnamed).2
      rw [hlength, nodes_initial, List.length_nil, Nat.zero_add]
    · intro hadds
      refine ⟨fun before p after hsplit hreported => ?_, ?_⟩
      · subst hsplit
        have hadded : Adds modules _ (p.1, p.2) := hadds.adds
        exact not_adds_of_nodes_eq (by rw [hreported]; rfl) hadded
      · rw [hadds.nodes, nodes_initial]
        rfl
  rw [hloaded, heach]
  constructor
  · rintro ⟨-, hpairs⟩ p hp q hq hdemanded
    by_contra hne
    have hsymm : Std.Symm (Apart hidden) := ⟨fun p q h => ⟨h.1.symm, h.2.2, h.2.1⟩⟩
    exact (hpairs.forall hp hq (Ne.symm hne)).2.1 hdemanded
  · intro hapart
    refine ⟨fun p _ => ⟨hfresh p.1, fun _ _ h => absurd h List.not_mem_nil⟩, ?_⟩
    refine (List.Nodup.of_map _ hdistinct).pairwise_of_forall_ne fun p hp q hq hne => ?_
    have hnames : p.1 ≠ q.1 := fun h => hne (List.inj_on_of_nodup_map hdistinct hp hq h)
    refine ⟨hnames, fun h => hne (hapart p hp q hq h).symm, fun h => hne (hapart q hq p hp h)⟩

def imageInfos : List (String × Value) :=
  [("Load", .list [.str "IMAGE"]), ("IMAGE", .list [])].map fun p => (p.1, .dict [("name", .str p.1),
    ("display_name", .str p.1), ("description", .str ""), ("category", .str "c"),
    ("output_node", .bool false), ("input", .dict []), ("output", p.2), ("output_name", p.2)])

theorem allLoaded_iff_apart_imageInfos :
    (∀ p ∈ imageInfos, named p.2 = .ok p.1) ∧ (imageInfos.map Prod.fst).Nodup ∧
      (∀ p ∈ imageInfos, ((addNode .none virtual p.2).run (initial false 2000 none)).1 = .ok ()) ∧
      ¬ (initial false 2000 none).AllLoaded .none imageInfos := by
  have hnamed : ∀ p ∈ imageInfos, named p.2 = .ok p.1 := by
    intro p hp
    rcases List.mem_cons.mp hp with rfl | hp
    · rfl
    · obtain rfl := List.mem_singleton.mp hp
      rfl
  have hdistinct : (imageInfos.map Prod.fst).Nodup := by decide
  have hok : ∀ p ∈ imageInfos,
      ((addNode .none virtual p.2).run (initial false 2000 none)).1.isOk = true := by
    intro p hp
    rcases List.mem_cons.mp hp with rfl | hp
    · decide +kernel
    · obtain rfl := List.mem_singleton.mp hp
      decide +kernel
  have haccepted : ∀ p ∈ imageInfos,
      ((addNode .none virtual p.2).run (initial false 2000 none)).1 = .ok () := by
    intro p hp
    have hp := hok p hp
    cases hrun : ((addNode .none virtual p.2).run (initial false 2000 none)).1 with
    | ok _ => rfl
    | error e =>
      rw [hrun] at hp
      cases hp
  refine ⟨hnamed, hdistinct, haccepted, fun hloaded => ?_⟩
  have hapart := (allLoaded_iff_apart hnamed hdistinct haccepted).mp hloaded _ (.head _) _ (.tail _ (.head _))
    (by decide +kernel)
  exact absurd (congrArg Prod.fst hapart) (by decide)

end Registry

end Flowscript
