import Flowscript.Proofs.Workflow.OfPrompt

/-!
# Reading prompts back from their documents

A document tells the same thing three times: the table of links, the links of inputs, and the links
of outputs. The document of a prompt tells it consistently, and nothing of the prompt is lost.
-/

namespace Flowscript.Workflow

open List Option

/-! ## What a document lists -/

structure ListedInput where
  name : String
  type : Value
  link : Nat

structure ListedNode where
  id : String
  type : Value
  inputs : List ListedInput
  /-- For each output, the numbers of the links that leave it. -/
  outputs : List (List Nat)
  widgets : List (String × Value)

/-- A row in the table of links. -/
structure ListedLink where
  id : Nat
  source : String
  slot : Nat
  target : String
  place : Nat
  type : Value

structure Listing where
  lastLink : Nat
  nodes : List ListedNode
  links : List ListedLink

def naturalOf : Value → Except Fault Nat
  | .int (.ofNat n) => .ok n
  | _ => .error .wrongKind

def textOf : Value → Except Fault String
  | .str s => .ok s
  | _ => .error .wrongKind

def ListedInput.read (input : Value) : Except Fault ListedInput := do
  .ok ⟨← textOf (← input.entry "name"), ← input.entry "type", ← naturalOf (← input.entry "link")⟩

def readOutput (output : Value) : Except Fault (List Nat) := do
  (← (← output.entry "links").iterate).mapM naturalOf

def ListedNode.read (node : Value) : Except Fault ListedNode := do
  .ok ⟨← textOf (← node.entry "id"), ← node.entry "type",
    ← (← (← node.entry "inputs").iterate).mapM ListedInput.read,
    ← (← (← node.entry "outputs").iterate).mapM readOutput,
    ← (← node.entry "widgets_values").entries⟩

def ListedLink.read : Value → Except Fault ListedLink
  | .list [id, source, slot, target, place, type] => do
    .ok ⟨← naturalOf id, ← textOf source, ← naturalOf slot, ← textOf target, ← naturalOf place, type⟩
  | _ => .error .wrongKind

def Listing.read (document : Value) : Except Fault Listing := do
  .ok ⟨← naturalOf (← document.entry "last_link_id"),
    ← (← (← document.entry "nodes").iterate).mapM ListedNode.read,
    ← (← (← document.entry "links").iterate).mapM ListedLink.read⟩

namespace Listing

def HasInput (l : Listing) (target : String) (place link : Nat) (type : Value) : Prop :=
  ∃ n ∈ l.nodes, n.id = target ∧
    ∃ input, n.inputs[place]? = some input ∧ input.link = link ∧ input.type = type

/-- A link leaves an output of a node once, and no other output. -/
def Leaves (l : Listing) (link : Nat) (source : String) (slot : Nat) : Prop :=
  (∃ n ∈ l.nodes, n.id = source ∧ ∃ links, n.outputs[slot]? = some links ∧ links.count link = 1) ∧
    ∀ n ∈ l.nodes, ∀ s links, n.outputs[s]? = some links → link ∈ links → n.id = source ∧ s = slot

/-- The links are numbered in order, each row of the table stands for an input and an output that
have its number, and the links of an output are in order. -/
structure Consistent (l : Listing) : Prop where
  numbered : l.links.map ListedLink.id = List.range l.lastLink
  link_iff : ∀ link source slot target place type,
    ⟨link, source, slot, target, place, type⟩ ∈ l.links ↔
      l.HasInput target place link type ∧ l.Leaves link source slot
  increasing : ∀ n ∈ l.nodes, ∀ links ∈ n.outputs, links.Pairwise (· < ·)

def sourceOf? (l : Listing) (link : Nat) : Option Value :=
  (l.links.find? fun row => row.id == link).map fun row => .list [.str row.source, .int row.slot]

def inputsOf (l : Listing) (n : ListedNode) : List (String × Value) :=
  (n.inputs.filterMap fun input => (l.sourceOf? input.link).map fun source => (input.name, source)) ++
    n.widgets

end Listing

/-! ## Documents of nodes whose links are numbered -/

namespace DraftNode

/-- A node as the document lists it; its first link has the number `next`. -/
def listed (ws : List Wire) (next : Nat) (n : DraftNode) : ListedNode where
  id := n.id
  type := n.type
  inputs := n.inputs.zipIdx.map fun entry => ⟨entry.1.name, entry.1.type, next + entry.2⟩
  outputs := (List.range n.outputs.length).map (linksFrom ws n.id)
  widgets := n.widgets

def listedAll (ws : List Wire) : Nat → List DraftNode → List ListedNode
  | _, [] => []
  | next, n :: rest => n.listed ws next :: listedAll ws (next + n.inputs.length) rest

end DraftNode

def Wire.listed (w : Wire) (k : Nat) : ListedLink :=
  ⟨k, w.input.source, w.input.slot, w.target, w.place, w.input.type⟩

def listingOf (nodes : List DraftNode) : Listing :=
  let ws := nodes.flatMap DraftNode.wires
  ⟨ws.length, DraftNode.listedAll ws 0 nodes, ws.zipIdx.map fun entry => entry.1.listed entry.2⟩

section Reading

variable (ws : List Wire)

theorem mapM_map_eq {α β γ : Type} {w : α → β} {r : β → Except Fault γ} {f : α → γ}
    (items : List α) (h : ∀ a ∈ items, r (w a) = .ok (f a)) :
    (items.map w).mapM r = .ok (items.map f) := by
  rw [mapM_map]
  exact mapM_eq_map h

theorem read_inputValues (next : Nat) (inputs : List DraftInput) :
    (inputValues next inputs).mapM ListedInput.read =
      .ok (inputs.zipIdx.map fun entry => ⟨entry.1.name, entry.1.type, next + entry.2⟩) :=
  mapM_map_eq _ fun _ _ => rfl

theorem read_outputs (n : DraftNode) :
    ((n.wired ws).outputs.map DraftOutput.toValue).mapM readOutput =
      .ok ((List.range n.outputs.length).map (linksFrom ws n.id)) := by
  have hread : ∀ o ∈ (n.wired ws).outputs, readOutput o.toValue = .ok o.links := by
    intro o _
    have hnumbers := mapM_map_eq (w := fun (l : Nat) => Value.int l) (r := naturalOf) (f := id)
      o.links fun _ _ => rfl
    rwa [List.map_id] at hnumbers
  have hlinks : (n.wired ws).outputs.map DraftOutput.links =
      (List.range n.outputs.length).map (linksFrom ws n.id) := by
    refine ext_getElem? fun k => ?_
    by_cases hk : k < n.outputs.length
    · simp [DraftNode.wired, hk]
    · simp [DraftNode.wired, hk]
  rw [mapM_map_eq _ hread, hlinks]

theorem read_node (order next : Nat) (n : DraftNode) :
    ListedNode.read ((n.wired ws).toValue order next) = .ok (n.listed ws next) := by
  have hread : ListedNode.read ((n.wired ws).toValue order next) =
      ((inputValues next n.inputs).mapM ListedInput.read >>= fun inputs =>
        ((n.wired ws).outputs.map DraftOutput.toValue).mapM readOutput >>= fun outputs =>
          Except.ok ⟨n.id, n.type, inputs, outputs, n.widgets⟩) := rfl
  rw [hread, read_inputValues, ok_bind, read_outputs, ok_bind]
  rfl

theorem read_nodes (order next : Nat) (nodes : List DraftNode) :
    (nodeValues order next (nodes.map (DraftNode.wired ws))).mapM ListedNode.read =
      .ok (DraftNode.listedAll ws next nodes) := by
  induction nodes generalizing order next with
  | nil => rfl
  | cons n rest ih =>
    rw [map_cons, nodeValues, mapM_cons, read_node, ok_bind]
    change (nodeValues (order + 1) (next + n.inputs.length) _).mapM _ >>= _ = _
    rw [ih, ok_bind]
    rfl

theorem read_documentOfParts (nodes : List DraftNode) :
    Listing.read (documentOfParts (nodes.map (DraftNode.wired (nodes.flatMap DraftNode.wires)))
      (draftLinks (nodes.flatMap DraftNode.wires))) = .ok (listingOf nodes) := by
  let ws := nodes.flatMap DraftNode.wires
  have hlinks : ((draftLinks ws).map DraftLink.toValue).mapM ListedLink.read =
      .ok (ws.zipIdx.map fun entry => entry.1.listed entry.2) := by
    rw [draftLinks, List.map_map]
    exact mapM_map_eq _ fun _ _ => rfl
  have hread : Listing.read (documentOfParts (nodes.map (DraftNode.wired ws)) (draftLinks ws)) =
      ((nodeValues 0 0 (nodes.map (DraftNode.wired ws))).mapM ListedNode.read >>= fun listed =>
        ((draftLinks ws).map DraftLink.toValue).mapM ListedLink.read >>= fun links =>
          Except.ok ⟨(draftLinks ws).length, listed, links⟩) := rfl
  rw [hread, read_nodes, ok_bind, hlinks, ok_bind, length_draftLinks]
  rfl

end Reading

/-! ## Consistency -/

section Consistency

variable {ws : List Wire} {nodes : List DraftNode} {link next : Nat} {n : DraftNode} {rest : List DraftNode}

theorem pairwise_linksFrom (ws : List Wire) (id : String) (slot : Nat) :
    (linksFrom ws id slot).Pairwise (· < ·) := by
  have hnumbers : ws.zipIdx.Pairwise fun a b => a.2 < b.2 := by
    rw [← pairwise_map (f := Prod.snd) (R := (· < ·)), zipIdx_map_snd]
    exact pairwise_lt_range'
  refine hnumbers.filterMap _ fun a b hab k hk l hl => ?_
  obtain ⟨-, hk⟩ := ite_none_right_eq_some.mp hk
  obtain ⟨-, hl⟩ := ite_none_right_eq_some.mp hl
  rwa [some.inj hk, some.inj hl] at hab

theorem DraftNode.length_wires (n : DraftNode) : n.wires.length = n.inputs.length := by
  simp [DraftNode.wires]

theorem DraftNode.mem_listedAll {m : ListedNode} (h : m ∈ listedAll ws next nodes) :
    ∃ n ∈ nodes, ∃ k, m = n.listed ws k := by
  induction nodes generalizing next with
  | nil => cases h
  | cons n rest ih =>
    obtain rfl | h := mem_cons.mp h
    · exact ⟨n, mem_cons_self, next, rfl⟩
    · obtain ⟨n', hn', k, rfl⟩ := ih h
      exact ⟨n', mem_cons_of_mem _ hn', k, rfl⟩

theorem DraftNode.listed_mem (ws : List Wire) (next : Nat) (h : n ∈ nodes) :
    ∃ k, n.listed ws k ∈ listedAll ws next nodes := by
  induction nodes generalizing next with
  | nil => cases h
  | cons n' rest ih =>
    obtain rfl | h := mem_cons.mp h
    · exact ⟨next, mem_cons_self⟩
    · obtain ⟨k, hk⟩ := ih (next + n'.inputs.length) h
      exact ⟨k, mem_cons_of_mem _ hk⟩

theorem DraftNode.getElem?_wires (n : DraftNode) (i : Nat) :
    n.wires[i]? = n.inputs[i]?.map fun input => ⟨n.id, i, input.port⟩ := by
  simp [DraftNode.wires, getElem?_zipIdx, Function.comp_def]

theorem DraftNode.getElem?_inputs_listed (next place : Nat) (n : DraftNode) :
    (n.listed ws next).inputs[place]? =
      n.inputs[place]?.map fun input => ⟨input.name, input.type, next + place⟩ := by
  simp [DraftNode.listed, getElem?_zipIdx, Function.comp_def]

theorem DraftNode.exists_wire_cons {P : Wire → Prop} :
    (∃ i w, link = next + i ∧ ((n :: rest).flatMap wires)[i]? = some w ∧ P w) ↔
      (∃ i w, link = next + i ∧ n.wires[i]? = some w ∧ P w) ∨
        ∃ i w, link = next + n.inputs.length + i ∧ (rest.flatMap wires)[i]? = some w ∧ P w := by
  rw [flatMap_cons, ← n.length_wires]
  constructor
  · rintro ⟨i, w, rfl, hw, hP⟩
    by_cases hi : i < n.wires.length
    · exact .inl ⟨i, w, rfl, by rwa [getElem?_append_left hi] at hw, hP⟩
    · rw [getElem?_append_right (Nat.le_of_not_lt hi)] at hw
      exact .inr ⟨i - n.wires.length, w, by omega, hw, hP⟩
  · rintro (⟨i, w, rfl, hw, hP⟩ | ⟨i, w, rfl, hw, hP⟩)
    · have hi := (List.getElem?_eq_some_iff.mp hw).1
      exact ⟨i, w, rfl, by rwa [getElem?_append_left hi], hP⟩
    · refine ⟨n.wires.length + i, w, by omega, ?_, hP⟩
      rwa [getElem?_append_right (by omega), Nat.add_sub_cancel_left]

/-- The input at a place has the number of its wire. The induction is on the nodes, whose wires come
one after the other. -/
theorem DraftNode.hasInput_listedAll {target : String} {place : Nat} {type : Value} :
    (∃ m ∈ listedAll ws next nodes, m.id = target ∧
      ∃ input, m.inputs[place]? = some input ∧ input.link = link ∧ input.type = type) ↔
    ∃ i w, link = next + i ∧ (nodes.flatMap wires)[i]? = some w ∧ w.target = target ∧
      w.place = place ∧ w.input.type = type := by
  induction nodes generalizing next with
  | nil => simp [listedAll]
  | cons n rest ih =>
    have hfirst : (n.id = target ∧ ∃ input, (n.listed ws next).inputs[place]? = some input ∧
        input.link = link ∧ input.type = type) ↔
        ∃ i w, link = next + i ∧ n.wires[i]? = some w ∧ w.target = target ∧ w.place = place ∧
          w.input.type = type := by
      simp only [getElem?_inputs_listed, getElem?_wires, map_eq_some_iff]
      constructor
      · rintro ⟨rfl, _, ⟨input, hinput, rfl⟩, rfl, rfl⟩
        exact ⟨place, _, rfl, ⟨input, hinput, rfl⟩, rfl, rfl, rfl⟩
      · rintro ⟨i, _, rfl, ⟨input, hinput, rfl⟩, rfl, rfl, rfl⟩
        exact ⟨rfl, _, ⟨input, hinput, rfl⟩, rfl, rfl⟩
    rw [listedAll, exists_wire_cons, ← hfirst, ← ih]
    simp only [mem_cons, or_and_right, exists_or, exists_eq_left]
    rfl

theorem DraftNode.Ready.exists_source (h : Ready nodes) {w : Wire} (hw : w ∈ nodes.flatMap wires) :
    ∃ m ∈ nodes, m.id = w.input.source ∧ w.input.slot < m.outputs.length := by
  obtain ⟨n, hn, hw⟩ := mem_flatMap.mp hw
  obtain ⟨⟨⟨name, type, source⟩, k⟩, hk, rfl⟩ := mem_map.mp hw
  obtain ⟨m, hm, s, rfl, hs⟩ := h.named n hn _ (fst_mem_of_mem_zipIdx hk)
  exact ⟨m, hm, rfl, hs⟩

theorem DraftNode.getElem?_outputs_listed {s : Nat} {links : List Nat} :
    (n.listed ws next).outputs[s]? = some links ↔ s < n.outputs.length ∧ linksFrom ws n.id s = links := by
  by_cases hs : s < n.outputs.length <;> simp [DraftNode.listed, hs]

theorem DraftNode.Ready.leaves_iff (h : Ready nodes) {w : Wire} (hw : (nodes.flatMap wires)[link]? = some w)
    {source : String} {slot : Nat} :
    (listingOf nodes).Leaves link source slot ↔ w.input.source = source ∧ w.input.slot = slot := by
  have hlink (id : String) (s : Nat) : link ∈ linksFrom (nodes.flatMap wires) id s ↔
      w.input.source = id ∧ w.input.slot = s := by
    simp [mem_linksFrom, hw]
  constructor
  · rintro ⟨⟨m, hm, rfl, links, hlinks, hcount⟩, -⟩
    obtain ⟨n, -, k, rfl⟩ := mem_listedAll hm
    obtain ⟨-, rfl⟩ := getElem?_outputs_listed.mp hlinks
    exact (hlink _ _).mp (count_pos_iff.mp (hcount ▸ Nat.one_pos))
  · rintro ⟨rfl, rfl⟩
    obtain ⟨m, hm, hid, hslot⟩ := h.exists_source (mem_of_getElem? hw)
    obtain ⟨k, hk⟩ := listed_mem (nodes.flatMap wires) 0 hm
    refine ⟨⟨_, hk, hid, _, getElem?_outputs_listed.mpr ⟨hslot, rfl⟩, ?_⟩, ?_⟩
    · have hnodup := (pairwise_linksFrom (nodes.flatMap wires) m.id w.input.slot).imp Nat.ne_of_lt
      exact count_eq_one_of_mem hnodup ((hlink _ _).mpr ⟨hid.symm, rfl⟩)
    · intro m' hm' s links hlinks hmem
      obtain ⟨n, -, k, rfl⟩ := mem_listedAll hm'
      obtain ⟨-, rfl⟩ := getElem?_outputs_listed.mp hlinks
      obtain ⟨hsource, hslot⟩ := (hlink _ _).mp hmem
      exact ⟨hsource.symm, hslot.symm⟩

theorem DraftNode.Ready.consistent (h : Ready nodes) : (listingOf nodes).Consistent where
  numbered := by
    have hids : (fun entry : Wire × Nat => (entry.1.listed entry.2).id) = Prod.snd := rfl
    simp only [listingOf, List.map_map, Function.comp_def, hids, List.zipIdx_map_snd]
    exact List.range_eq_range'.symm
  link_iff := by
    intro link source slot target place type
    have hrow : ⟨link, source, slot, target, place, type⟩ ∈ (listingOf nodes).links ↔
        ∃ w, (nodes.flatMap wires)[link]? = some w ∧ w.target = target ∧ w.place = place ∧
          w.input.type = type ∧ w.input.source = source ∧ w.input.slot = slot := by
      simp only [listingOf, List.mem_map, Prod.exists, mem_zipIdx_iff_getElem?, Wire.listed,
        ListedLink.mk.injEq]
      constructor
      · rintro ⟨w, k, hw, rfl, rfl, rfl, rfl, rfl, rfl⟩
        exact ⟨w, hw, rfl, rfl, rfl, rfl, rfl⟩
      · rintro ⟨w, hw, rfl, rfl, rfl, rfl, rfl⟩
        exact ⟨w, link, hw, rfl, rfl, rfl, rfl, rfl, rfl⟩
    have hinput : (listingOf nodes).HasInput target place link type ↔
        ∃ w, (nodes.flatMap wires)[link]? = some w ∧ w.target = target ∧ w.place = place ∧
          w.input.type = type := by
      refine hasInput_listedAll.trans ?_
      simp
    rw [hrow, hinput]
    constructor
    · rintro ⟨w, hw, htarget, hplace, htype, hstart⟩
      exact ⟨⟨w, hw, htarget, hplace, htype⟩, (h.leaves_iff hw).mpr hstart⟩
    · rintro ⟨⟨w, hw, htarget, hplace, htype⟩, hleaves⟩
      exact ⟨w, hw, htarget, hplace, htype, (h.leaves_iff hw).mp hleaves⟩
  increasing := by
    intro m hm links hlinks
    obtain ⟨n, -, k, rfl⟩ := mem_listedAll hm
    obtain ⟨s, -, rfl⟩ := mem_map.mp hlinks
    exact pairwise_linksFrom _ _ _

/-! ## Reading back -/

theorem find?_listed (ws : List Wire) (o k : Nat) :
    (((ws.zipIdx o).map fun entry => entry.1.listed entry.2).find? fun row => row.id == o + k) =
      ws[k]?.map fun w => w.listed (o + k) := by
  induction ws generalizing o k with
  | nil => rfl
  | cons w rest ih =>
    cases k with
    | zero => simp [Wire.listed]
    | succ k =>
      have hne : ((w.listed o).id == o + (k + 1)) = false := by simp [Wire.listed]
      rw [zipIdx_cons, map_cons, find?_cons, hne, getElem?_cons_succ]
      have hrest := ih (o + 1) k
      rwa [Nat.add_right_comm, Nat.add_assoc] at hrest

theorem DraftNode.Ready.sourceOf?_eq (h : Ready nodes) {done : List DraftNode}
    (hsplit : nodes = done ++ n :: rest) {k : Nat} {input : DraftInput} (hinput : n.inputs[k]? = some input) :
    (listingOf nodes).sourceOf? ((done.flatMap wires).length + k) = some input.source := by
  have hwire : (nodes.flatMap wires)[(done.flatMap wires).length + k]? = some ⟨n.id, k, input.port⟩ := by
    have hk : n.wires[k]? = some ⟨n.id, k, input.port⟩ := by rw [getElem?_wires, hinput]; rfl
    rw [hsplit, flatMap_append, getElem?_append_right (Nat.le_add_right _ _),
      Nat.add_sub_cancel_left, flatMap_cons,
      List.getElem?_append_left (List.getElem?_eq_some_iff.mp hk).1, hk]
  have hfind := find?_listed (nodes.flatMap wires) 0 ((done.flatMap wires).length + k)
  rw [Nat.zero_add, hwire, map_some] at hfind
  rw [Listing.sourceOf?, listingOf, hfind, map_some]
  obtain ⟨name, type, source⟩ := input
  obtain ⟨m, -, s, rfl, -⟩ := h.named n (hsplit ▸ by simp) _ (mem_of_getElem? hinput)
  rfl

theorem DraftNode.Ready.inputsOf_listed (h : Ready nodes) {done : List DraftNode}
    (hsplit : nodes = done ++ n :: rest) :
    (listingOf nodes).inputsOf (n.listed ws (done.flatMap wires).length) =
      n.inputs.map (fun input => (input.name, input.source)) ++ n.widgets := by
  have hfound : ∀ entry ∈ n.inputs.zipIdx,
      ((listingOf nodes).sourceOf? ((done.flatMap wires).length + entry.2)).map
        (fun source => (entry.1.name, source)) = some (entry.1.name, entry.1.source) := by
    intro entry hentry
    rw [h.sourceOf?_eq hsplit (mem_zipIdx_iff_getElem?.mp hentry), map_some]
  rw [Listing.inputsOf, listed, filterMap_map]
  refine congrArg (· ++ n.widgets) ?_
  calc n.inputs.zipIdx.filterMap _
      = n.inputs.zipIdx.filterMap fun entry => some (entry.1.name, entry.1.source) :=
        filterMap_congr hfound
    _ = (n.inputs.zipIdx.map Prod.fst).map fun input => (input.name, input.source) := by
        rw [List.filterMap_eq_map', List.map_map]
        rfl
    _ = n.inputs.map fun input => (input.name, input.source) := by rw [List.zipIdx_map_fst]

end Consistency

/-! ## Prompts over known types -/

/-- An entry of a prompt, with the inputs that its type declares and the number of outputs. -/
structure PromptEntry where
  id : String
  type : Value
  inputs : List (String × Value)
  declared : List (String × Value)
  outputs : Nat

/-- The description of a type declares these inputs and has that many outputs, each with a name. -/
def Declares (info : Value) (declared : List (String × Value)) (outputs : Nat) : Prop :=
  ∃ groups required optional types typeItems names nameItems,
    info.entry "input" = .ok (.dict groups) ∧
    HasGroup groups "required" required ∧ HasGroup groups "optional" optional ∧
    declared = Value.merge (Value.merge [] required) optional ∧
    info.entry "output" = .ok types ∧ Lists types typeItems ∧ typeItems.length = outputs ∧
    info.entry "output_name" = .ok names ∧ Lists names nameItems ∧ outputs ≤ nameItems.length

def ReadsEntries (nodesInfo prompt : Value) (nodes : List PromptEntry) : Prop :=
  ∃ entries, prompt = .dict entries ∧ List.Forall₂ (fun entry n => entry.1 = n.id ∧
    entry.2.entry "class_type" = .ok n.type ∧ entry.2.entry "inputs" = .ok (.dict n.inputs) ∧
    ∃ info, nodesInfo.item n.type = .ok info ∧ Declares info n.declared n.outputs) entries nodes

def PromptEntry.HasType (n : PromptEntry) (name : String) (type : Value) : Prop :=
  ∃ config, Value.lookup name n.declared = some config ∧ config.item (.int 0) = .ok type

/-- Ids and input names are different, and each list among the inputs names an output of an entry,
under a declared name. -/
structure WellLinked (nodes : List PromptEntry) : Prop where
  ids : (nodes.map PromptEntry.id).Nodup
  names : ∀ n ∈ nodes, (n.inputs.map Prod.fst).Nodup
  linked : ∀ n ∈ nodes, ∀ name items, (name, .list items) ∈ n.inputs →
    (∃ m ∈ nodes, ∃ s < m.outputs, items = [.str m.id, .int s]) ∧ ∃ type, n.HasType name type

structure PromptEntry.Drafts (n : PromptEntry) (d : DraftNode) : Prop where
  id : d.id = n.id
  type : d.type = n.type
  inputs : d.inputs.map (fun input => (input.name, input.source)) =
    n.inputs.filter fun entry => isLink entry.2
  types : ∀ input ∈ d.inputs, n.HasType input.name input.type
  widgets : d.widgets = n.inputs.filter fun entry => !isLink entry.2
  outputs : d.outputs.length = n.outputs
  unlinked : ∀ o ∈ d.outputs, o.links = []

/-- The node of a document stands for the entry of the prompt, and its inputs can be read back. -/
structure Listing.Restores (l : Listing) (n : PromptEntry) (m : ListedNode) : Prop where
  id : m.id = n.id
  type : m.type = n.type
  types : ∀ input ∈ m.inputs, n.HasType input.name input.type
  outputs : m.outputs.length = n.outputs
  inputs : (l.inputsOf m).Perm n.inputs

section Prompts

variable {nodesInfo prompt : Value} {nodes : List PromptEntry} {drafts : List DraftNode}

theorem draftNode_of_declares {n : PromptEntry} {node info : Value}
    (htype : node.entry "class_type" = .ok n.type) (hinputs : node.entry "inputs" = .ok (.dict n.inputs))
    (hinfo : nodesInfo.item n.type = .ok info) (hdeclares : Declares info n.declared n.outputs)
    (hnames : (n.inputs.map Prod.fst).Nodup)
    (hlinked : ∀ name items, (name, .list items) ∈ n.inputs → ∃ type, n.HasType name type) :
    ∃ d, draftNode nodesInfo n.id node = .ok d ∧ n.Drafts d := by
  let typeOf (name : String) : Value := ((Value.lookup name n.declared).bind fun config =>
    (config.item (.int 0)).toOption).getD .null
  have htypeOf : ∀ entry ∈ n.inputs, isLink entry.2 = true → n.HasType entry.1 (typeOf entry.1) := by
    rintro ⟨name, v⟩ hentry hlink
    cases v with
    | list items =>
      obtain ⟨type, config, hconfig, htype⟩ := hlinked name items hentry
      exact ⟨config, hconfig, by simp [typeOf, hconfig, htype, Except.toOption]⟩
    | _ => cases hlink
  obtain ⟨groups, required, optional, types, typeItems, names, nameItems, hgroups, hrequired, hoptional,
    hdeclared, htypes, htypeLists, hcount, hnameEntry, hnameLists, hlength⟩ := hdeclares
  have hentries : (Value.dict n.inputs).entries = .ok n.inputs := rfl
  have hdraft : draftNode nodesInfo n.id node = .ok ⟨n.id, n.type, draftInputs typeOf n.inputs,
      typeItems.zipWith (fun type name => ⟨name, type, []⟩) nameItems,
      Value.merge [] (n.inputs.filter fun entry => !isLink entry.2)⟩ := by
    unfold draftNode
    simp only [htype, hinfo, declaredInputs_eq hgroups hrequired hoptional, ← hdeclared, hinputs,
      hentries, splitInputs_of_declared typeOf htypeOf,
      draftOutputs_eq htypes htypeLists hnameEntry hnameLists (hcount ▸ hlength), ok_bind]
  refine ⟨_, hdraft, rfl, rfl, ?_, ?_, ?_, ?_, ?_⟩
  · simp [draftInputs, Function.comp_def]
  · intro input hinput
    obtain ⟨entry, hentry, rfl⟩ := mem_map.mp hinput
    obtain ⟨hmem, hlink⟩ := mem_filter.mp hentry
    exact htypeOf entry hmem hlink
  · exact Value.merge_eq_append (hnames.sublist (filter_sublist.map Prod.fst))
  · simp [hcount, hlength]
  · intro o ho
    obtain ⟨i, hi⟩ := getElem?_of_mem ho
    obtain ⟨type, name, -, -, rfl⟩ := getElem?_zipWith_eq_some.mp hi
    rfl

theorem exists_mapM_of_forall₂ {α β γ : Type} {R : α → β → Prop} {S : β → γ → Prop}
    {f : α → Except Fault γ} {as : List α} {bs : List β} (h : List.Forall₂ R as bs)
    (hf : ∀ a, ∀ b ∈ bs, R a b → ∃ c, f a = .ok c ∧ S b c) :
    ∃ cs, as.mapM f = .ok cs ∧ List.Forall₂ S bs cs := by
  induction h with
  | nil => exact ⟨[], rfl, .nil⟩
  | cons hab _ ih =>
    obtain ⟨c, hc, hS⟩ := hf _ _ mem_cons_self hab
    obtain ⟨cs, hcs, hSs⟩ := ih fun a b hb => hf a b (mem_cons_of_mem _ hb)
    refine ⟨c :: cs, ?_, .cons hS hSs⟩
    rw [mapM_cons, hc, ok_bind, hcs]
    rfl

theorem drafts_of_readsEntries (hreads : ReadsEntries nodesInfo prompt nodes)
    (hlinked : WellLinked nodes) :
    ∃ drafts, (prompt.entries >>= fun entries =>
        entries.mapM fun entry => draftNode nodesInfo entry.1 entry.2) = .ok drafts ∧
      List.Forall₂ PromptEntry.Drafts nodes drafts := by
  obtain ⟨entries, rfl, hentries⟩ := hreads
  have hread : (Value.dict entries).entries = .ok entries := rfl
  rw [hread, ok_bind]
  refine exists_mapM_of_forall₂ hentries fun entry n hn hentry => ?_
  obtain ⟨hid, htype, hinputs, info, hinfo, hdeclares⟩ := hentry
  rw [hid]
  exact draftNode_of_declares htype hinputs hinfo hdeclares (hlinked.names n hn)
    fun name items hmem => (hlinked.linked n hn name items hmem).2

theorem WellLinked.ready (h : WellLinked nodes) (hdrafts : List.Forall₂ PromptEntry.Drafts nodes drafts) :
    DraftNode.Ready drafts where
  ids := by
    have hids : drafts.map DraftNode.id = nodes.map PromptEntry.id := by
      have hflip : List.Forall₂ (fun d n => d.id = n.id) drafts nodes :=
        (hdrafts.imp fun _ _ hd => hd.id).flip
      rw [← List.forall₂_eq_eq_eq, List.forall₂_map_left_iff, List.forall₂_map_right_iff]
      exact hflip
    exact hids ▸ h.ids
  unlinked := by
    intro d hd
    obtain ⟨n, -, hn⟩ := exists_mem_of_forall₂ hdrafts.flip hd
    exact hn.unlinked
  named := by
    intro d hd input hinput
    obtain ⟨n, hn, hdraft⟩ := exists_mem_of_forall₂ hdrafts.flip hd
    have hmem : (input.name, input.source) ∈ n.inputs.filter fun entry => isLink entry.2 :=
      hdraft.inputs ▸ mem_map_of_mem hinput
    obtain ⟨hmem, hlink⟩ := mem_filter.mp hmem
    cases hsource : input.source with
    | list items =>
      obtain ⟨⟨m, hm, s, hs, rfl⟩, -⟩ := h.linked n hn input.name items (hsource ▸ hmem)
      obtain ⟨d', hd', hm'⟩ := exists_mem_of_forall₂ hdrafts hm
      exact ⟨d', hd', s, by rw [hm'.id], hm'.outputs ▸ hs⟩
    | _ =>
      rw [hsource] at hlink
      cases hlink

theorem forall₂_listedAll {ws : List Wire} {R : PromptEntry → ListedNode → Prop}
    (before : List DraftNode) (hdrafts : List.Forall₂ PromptEntry.Drafts nodes drafts)
    (h : ∀ done d rest n, before ++ drafts = done ++ d :: rest → n.Drafts d →
      R n (d.listed ws (done.flatMap DraftNode.wires).length)) :
    List.Forall₂ R nodes
      (DraftNode.listedAll ws (before.flatMap DraftNode.wires).length drafts) := by
  induction hdrafts generalizing before with
  | nil => exact .nil
  | @cons n d nodes drafts hd _ ih =>
    have hnext : (before.flatMap DraftNode.wires).length + d.inputs.length =
        ((before ++ [d]).flatMap DraftNode.wires).length := by
      simp [DraftNode.length_wires]
    refine .cons (h before d drafts n rfl hd) ?_
    rw [hnext]
    exact ih (before ++ [d]) fun done d' rest n' hsplit => h done d' rest n' (by rw [← hsplit]; simp)

theorem DraftNode.Ready.restores (h : DraftNode.Ready drafts)
    (hdrafts : List.Forall₂ PromptEntry.Drafts nodes drafts) :
    List.Forall₂ (listingOf drafts).Restores nodes (listingOf drafts).nodes := by
  refine forall₂_listedAll [] hdrafts fun done d rest n hsplit hd => ?_
  refine ⟨hd.id, hd.type, ?_, ?_, ?_⟩
  · intro input hinput
    obtain ⟨entry, hentry, rfl⟩ := mem_map.mp hinput
    exact hd.types _ (fst_mem_of_mem_zipIdx hentry)
  · simp [DraftNode.listed, hd.outputs]
  · rw [h.inputsOf_listed hsplit, hd.inputs, hd.widgets]
    exact filter_append_perm _ _

/-- The document of a prompt over known types is consistent, and the prompt can be read back: nodes
come in the order of the prompt, each with its type and its inputs. -/
theorem ofPrompt_lossless (hreads : ReadsEntries nodesInfo prompt nodes) (hlinked : WellLinked nodes) :
    ∃ l, (ofPrompt prompt nodesInfo >>= Listing.read) = .ok l ∧ l.Consistent ∧
      List.Forall₂ l.Restores nodes l.nodes := by
  obtain ⟨drafts, hrun, hdrafts⟩ := drafts_of_readsEntries hreads hlinked
  have hready := hlinked.ready hdrafts
  obtain ⟨entries, hentries, hrun⟩ := ok_of_bind hrun
  refine ⟨listingOf drafts, ?_, hready.consistent, hready.restores hdrafts⟩
  unfold ofPrompt
  rw [hentries, ok_bind, hrun, ok_bind, hready.linkAll, ok_bind, ok_bind, read_documentOfParts]

def mixedInputs : List (String × Value) :=
  [("first", .list [.str "LATENT"]), ("second", .list [.str "*"])]

def mixInfo : Value :=
  .dict [("input", .dict [("required", .dict mixedInputs)]),
    ("output", .list [.str "LATENT", .str "MASK"]), ("output_name", .list [.str "LATENT", .null])]

def firstMix : List (String × Value) :=
  [("first", .list [.str "2", .int 1]), ("factor", .int 3), ("second", .list [.str "1", .int 0])]

def secondMix : List (String × Value) :=
  [("second", .list [.str "1", .int 0]), ("first", .list [.str "1", .int 0]), ("mode", .dict [])]

def mixPrompt : Value :=
  .dict [("1", .dict [("class_type", .str "Mix"), ("inputs", .dict firstMix)]),
    ("2", .dict [("class_type", .str "Mix"), ("inputs", .dict secondMix)])]

def mixEntries : List PromptEntry :=
  [⟨"1", .str "Mix", firstMix, mixedInputs, 2⟩, ⟨"2", .str "Mix", secondMix, mixedInputs, 2⟩]

theorem readsEntries_mix : ReadsEntries (.dict [("Mix", mixInfo)]) mixPrompt mixEntries := by
  have hdeclares : Declares mixInfo mixedInputs 2 :=
    ⟨_, mixedInputs, [], _, _, _, _, rfl, .inl rfl, .inr ⟨rfl, .inl rfl⟩, rfl, rfl, .inl rfl, rfl, rfl,
      .inl rfl, by decide⟩
  exact ⟨_, rfl, .cons ⟨rfl, rfl, rfl, mixInfo, rfl, hdeclares⟩
    (.cons ⟨rfl, rfl, rfl, mixInfo, rfl, hdeclares⟩ .nil)⟩

theorem wellLinked_mix : WellLinked mixEntries where
  ids := by decide
  names := by simp [mixEntries, firstMix, secondMix]
  linked := by
    have hfirst (id : String) (inputs : List (String × Value)) :
        (PromptEntry.mk id (.str "Mix") inputs mixedInputs 2).HasType "first" (.str "LATENT") :=
      ⟨_, rfl, rfl⟩
    have hsecond (id : String) (inputs : List (String × Value)) :
        (PromptEntry.mk id (.str "Mix") inputs mixedInputs 2).HasType "second" (.str "*") :=
      ⟨_, rfl, rfl⟩
    intro n hn name items hmem
    simp only [mixEntries, mem_cons, not_mem_nil, or_false] at hn
    obtain rfl | rfl := hn
    · simp only [firstMix, mem_cons, Prod.mk.injEq, Value.list.injEq, reduceCtorEq, and_false,
        false_or, not_mem_nil, or_false] at hmem
      obtain ⟨rfl, rfl⟩ | ⟨rfl, rfl⟩ := hmem
      · exact ⟨⟨_, mem_cons_of_mem _ mem_cons_self, 1, by decide, rfl⟩, _, hfirst _ _⟩
      · exact ⟨⟨_, mem_cons_self, 0, by decide, rfl⟩, _, hsecond _ _⟩
    · simp only [secondMix, mem_cons, Prod.mk.injEq, Value.list.injEq, reduceCtorEq, and_false,
        not_mem_nil, or_false] at hmem
      obtain ⟨rfl, rfl⟩ | ⟨rfl, rfl⟩ := hmem
      · exact ⟨⟨_, mem_cons_self, 0, by decide, rfl⟩, _, hsecond _ _⟩
      · exact ⟨⟨_, mem_cons_self, 0, by decide, rfl⟩, _, hfirst _ _⟩

/-- Links lead forward, back to the same node, and twice from one output to one node. -/
theorem ofPrompt_lossless_mix :
    ∃ l, (ofPrompt mixPrompt (.dict [("Mix", mixInfo)]) >>= Listing.read) = .ok l ∧
      l.links.map (fun row => (row.source, row.slot, row.target, row.place)) =
        [("2", 1, "1", 0), ("1", 0, "1", 1), ("1", 0, "2", 0), ("1", 0, "2", 1)] ∧
      l.Consistent ∧ List.Forall₂ l.Restores mixEntries l.nodes := by
  obtain ⟨l, hread, hconsistent, hrestores⟩ := ofPrompt_lossless readsEntries_mix wellLinked_mix
  refine ⟨l, hread, ?_, hconsistent, hrestores⟩
  obtain rfl := Except.ok.inj hread
  rfl

end Prompts

end Flowscript.Workflow
