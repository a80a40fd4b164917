import Flowscript.Proofs.Workflow.Naming

/-!
# Variables that hold outputs

The vertex of a node with a statement says which variable holds each of its used outputs; a link that
starts there brings the variable as an argument. The statement of an ordinary node is its call.
-/

namespace Flowscript.Workflow

open List

variable {outputs : List Value} {s : Nat} {id nodesInfo : Value} {g : Graph} {d : Draft}

/-! ## Variables of outputs -/

def Graph.Has (g : Graph) (id : Value) (outputs : List Value) (slot : Nat) (x : String) : Prop :=
  ∃ fields ids, g.vertex? id = some ⟨id, some (.record fields), some ids⟩ ∧
    Value.lookup "outputs" fields = some (.list outputs) ∧ Table.find? (.int slot) ids = some x

theorem Graph.Has.of_beside {other : Value} {g' : Graph} {slot : Nat} {x : String}
    (h : g.Has other outputs slot x) (hg : g.Beside id g') (hother : (other == id) = false) :
    g'.Has other outputs slot x := by
  obtain ⟨fields, ids, hv, hrest⟩ := h
  exact ⟨fields, ids, hg.others _ _ hv hother, hrest⟩

theorem Graph.Has.holds {other link : Value} {x : String} (h : g.Has other outputs s x)
    (hother : (other == id) = false) {e : Edge} (hend : g.endOf link = .ok e) (hsource : e.source = other)
    (hslot : e.sourceSlot = .int s) {o : Value} (ho : outputs[s]? = some o) {links : List Value}
    (hlinks : o.field? "links" = some (.list links)) :
    Holds g id link x (links.length == 1) := by
  obtain ⟨fields, ids, hv, houtputs, hfind⟩ := h
  subst hsource
  refine ⟨e, _, fields, ids, _, o, .list links, hend, hv, hother, rfl, rfl, houtputs, ?_,
    field_eq_ok_iff.mpr hlinks, rfl, ?_⟩
  · rw [hslot, Value.item_list_int ho]
  · rw [hslot, hfind]

/-- The variable `x` holds the output of a node at a slot. -/
structure Draft.Holding (d : Draft) (id : Value) (outputs : List Value) (slot : Nat) (x : String) :
    Prop where
  has : d.graph.Has id outputs slot x
  inUse : x ∈ d.names
  notBlank : x ≠ "_"
  wordy : IsWordy x

theorem Named.holding {arguments : List Argument} {before d : Draft} {node : List (String × Value)}
    {t : Targets} (h : Named id outputs arguments before ⟨id, some (.record node), none⟩ t d)
    (houtputs : Value.lookup "outputs" node = some (.list outputs))
    (hlength : t.names.length = outputs.length) {o : Value} (ho : outputs[s]? = some o)
    (hlinks : linksOf o ≠ []) : ∃ x, t.names[s]? = some x ∧ d.Holding id outputs s x := by
  obtain ⟨x, hx⟩ : ∃ x, t.names[s]? = some x :=
    ⟨_, List.getElem?_eq_getElem (hlength ▸ (List.getElem?_eq_some_iff.mp ho).1)⟩
  have hblank : x ≠ "_" := fun hx' => hlinks ((h.blank s o x ho hx).mp hx')
  obtain ⟨-, hin, hwordy⟩ := h.named x (mem_of_getElem? hx) hblank
  obtain ⟨ids, hv, -, hfind⟩ := h.recorded
  have hfound := hfind s x hx hblank
  cases ids with
  | none => cases hfound
  | some ids => exact ⟨x, hx, ⟨node, ids, hv, houtputs, hfound⟩, hin, hblank, hwordy⟩

/-! ## Calls -/

def Targets.call (t : Targets) (callee : String) : Statement :=
  ⟨t.names, .call callee t.arguments, !t.names.isEmpty && !t.used⟩

theorem choice?_of_not_mem {type : String} (h : type ∉ multiplexers.map Multiplexer.nodeType)
    (widgets : List (String × Value)) : choice? (.str type) widgets = .ok none := by
  have hnone : (multiplexers.find? fun m => Value.str type == .str m.nodeType) = none := by
    rw [find?_eq_none]
    intro m hm
    rw [Value.str_beq_str, beq_iff_eq]
    exact fun heq => h (mem_map.mpr ⟨m, hm, heq.symm⟩)
  have hmultiplexer : multiplexer? (.str type) = .ok none := congrArg Except.ok hnone
  unfold choice?
  rw [hmultiplexer]
  rfl

theorem choice?_of_isOrdinary {type : String} (h : IsOrdinary type)
    (widgets : List (String × Value)) : choice? (.str type) widgets = .ok none :=
  choice?_of_not_mem (fun hmem => h (mem_append_right _ hmem)) widgets

theorem contribute_of_isOrdinary {node : Value} {type : String} (hordinary : IsOrdinary type)
    (hchoice : choiceOfNode nodesInfo node = .ok none) (id : Value)
    (named : List (String × Argument)) {t : Targets} (htargets : ∀ x ∈ t.names, '(' ∉ x.toList)
    (harguments : ∀ a ∈ t.arguments, Unmarked a.text.toList) :
    contribute nodesInfo id node (.int 0) (.str type) (Identifier.classId type) named t =
      .ok ⟨id, t, some (t.call (Identifier.classId type)),
        (t.call (Identifier.classId type)).text⟩ := by
  have hstatement : statementOf (.int 0) (Identifier.classId type) t =
    some (t.call (Identifier.classId type)) := rfl
  have hcallee : '(' ∉ (Identifier.classId type).toList := fun hmem =>
    absurd (Identifier.isWord_of_mem_classId hmem) (by decide)
  have hline : eliminate (subjectOf (.str type) named false)
      (t.call (Identifier.classId type)).text = .ok (t.call (Identifier.classId type)).text :=
    eliminate_call rfl hordinary rfl rfl htargets hcallee harguments
  unfold contribute
  rw [hstatement]
  simp only [hchoice, ok_bind, Option.isSome_none, hline]

theorem Named.not_mem_targets {arguments : List Argument} {before : Draft} {v : Vertex} {t : Targets}
    (h : Named id outputs arguments before v t d) :
    ∀ x ∈ t.names, '(' ∉ x.toList := by
  intro x hx hmem
  by_cases hblank : x = "_"
  · exact absurd (hblank ▸ hmem) (by decide)
  · exact absurd ((h.named x hx hblank).2.2 _ hmem) (by decide)

theorem KeptFrom.unmarked {arguments kept : List Argument} (h : KeptFrom arguments kept)
    (hunmarked : ∀ a ∈ arguments, Unmarked a.text.toList) :
    ∀ a ∈ kept, Unmarked a.text.toList := by
  intro a ha
  obtain ⟨b, hb, hkeep⟩ := h.exists_mem ha
  rw [← a.text_keep, ← hkeep, b.text_keep]
  exact hunmarked b hb

end Flowscript.Workflow
