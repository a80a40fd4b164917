import Flowscript.Proofs.Workflow.Drafting
import Flowscript.Proofs.Workflow.Survival
import Mathlib.Data.List.Perm.Basic

/-!
# Links of nodes

Nodes list their inputs and outputs as records, in the order of places. The argument of a linked input
is the variable that the vertex at the start of the link has for the output, whatever happens to the
vertex of the node itself.
-/

namespace Flowscript.Workflow

open List Option

/-! ## Sorting -/

section Sorting

variable {α : Type} {key : Value → Except Fault Value} {a : α} {items sorted : List (Value × α)}

theorem perm_of_insertSorted {key : Value} (h : Value.insertSorted key a items = .ok sorted) :
    sorted.Perm ((key, a) :: items) := by
  induction items generalizing sorted with
  | nil =>
    cases h
    exact .refl _
  | cons item rest ih =>
    unfold Value.insertSorted at h
    obtain ⟨before, -, h⟩ := ok_of_bind h
    cases before with
    | true =>
      cases h
      exact .refl _
    | false =>
      obtain ⟨tail, htail, h⟩ := ok_of_bind h
      cases h
      exact ((ih htail).cons item).trans (.swap _ _ _)

theorem perm_of_sortByKey (h : Value.sortByKey items = .ok sorted) : sorted.Perm items := by
  suffices hfold : ∀ acc, items.foldlM (fun sorted (item : Value × α) =>
      Value.insertSorted item.1 item.2 sorted) acc = .ok sorted → sorted.Perm (items ++ acc) by
    simpa using hfold [] h
  clear h
  induction items with
  | nil =>
    intro acc h
    cases h
    exact .refl _
  | cons item rest ih =>
    intro acc h
    rw [foldlM_cons] at h
    obtain ⟨acc', hinsert, h⟩ := ok_of_bind h
    refine (ih acc' h).trans (((perm_of_insertSorted hinsert).append_left rest).trans ?_)
    exact perm_middle

theorem map_snd_of_mapM_key {items : List Value} {keyed : List (Value × Value)}
    (h : (items.mapM fun item => do .ok (← key item, item)) = .ok keyed) :
    keyed.map Prod.snd = items := by
  induction items generalizing keyed with
  | nil =>
    cases h
    rfl
  | cons item rest ih =>
    rw [mapM_cons] at h
    obtain ⟨entry, hentry, h⟩ := ok_of_bind h
    obtain ⟨k, -, hentry⟩ := ok_of_bind hentry
    obtain ⟨tail, htail, h⟩ := ok_of_bind h
    cases h
    cases hentry
    rw [map_cons, ih htail]

theorem perm_of_sortOn {items sorted : List Value} (h : sortOn key items = .ok sorted) :
    sorted.Perm items := by
  obtain ⟨keyed, hkeyed, h⟩ := ok_of_bind h
  obtain ⟨sorted', hsorted, h⟩ := ok_of_bind h
  cases h
  exact map_snd_of_mapM_key hkeyed ▸ (perm_of_sortByKey hsorted).map Prod.snd

theorem less_ok {v w : Value} (hv : v.number?.isSome) (hw : w.number?.isSome) :
    ∃ before, Value.less v w = .ok before := by
  obtain ⟨x, hx⟩ := isSome_iff_exists.mp hv
  obtain ⟨y, hy⟩ := isSome_iff_exists.mp hw
  unfold Value.less
  split
  · cases hx
  · cases hx
  · rw [hx, hy]
    exact ⟨_, rfl⟩

theorem insertSorted_ok {key : Value} (hkey : key.number?.isSome) (a : α)
    (h : ∀ item ∈ items, item.1.number?.isSome) :
    ∃ sorted, Value.insertSorted key a items = .ok sorted := by
  induction items with
  | nil => exact ⟨_, rfl⟩
  | cons item rest ih =>
    obtain ⟨sorted, hsorted⟩ := ih fun item hitem => h item (mem_cons_of_mem _ hitem)
    obtain ⟨before, hbefore⟩ := less_ok hkey (h item mem_cons_self)
    unfold Value.insertSorted
    rw [hbefore, ok_bind]
    cases before with
    | true => exact ⟨_, rfl⟩
    | false =>
      rw [hsorted]
      exact ⟨_, rfl⟩

theorem sortByKey_ok (h : ∀ item ∈ items, item.1.number?.isSome) :
    ∃ sorted, Value.sortByKey items = .ok sorted := by
  have hstep : ∀ done item rest sorted, items = done ++ item :: rest →
      (∀ other ∈ sorted, other.1.number?.isSome) →
      ∃ sorted', Value.insertSorted item.1 item.2 sorted = .ok sorted' ∧
        ∀ other ∈ sorted', other.1.number?.isSome := by
    intro done item rest sorted hitems hsorted
    have hitem := h item (hitems ▸ by simp)
    obtain ⟨sorted', hinsert⟩ := insertSorted_ok hitem item.2 hsorted
    refine ⟨sorted', hinsert, fun other hother => ?_⟩
    rcases mem_cons.mp ((perm_of_insertSorted hinsert).subset hother) with rfl | hold
    · exact hitem
    · exact hsorted other hold
  obtain ⟨sorted, hsorted, -⟩ := foldlM_ok
    (fun _ (sorted : List (Value × α)) => ∀ other ∈ sorted, other.1.number?.isSome) items hstep
    (b := []) fun other hother => absurd hother not_mem_nil
  exact ⟨sorted, hsorted⟩

theorem less_int (m n : Int) : Value.less (.int m) (.int n) = .ok (decide (m < n)) := by
  have hless : Value.less (.int m) (.int n) = .ok (decide (m * 1 < n * 1)) := rfl
  simpa using hless

end Sorting

section Places

variable {α : Type} {key : Value → Except Fault Value} {place : Nat → Int} {items sorted : List Value}

/-- One position comes before another: its place does, or it does and the places are the same. -/
def Before (place : Nat → Int) (p q : Nat) : Prop := place p < place q ∨ place p = place q ∧ p < q

instance (place : Nat → Int) (p q : Nat) : Decidable (Before place p q) :=
  inferInstanceAs (Decidable (_ ∨ _))

structure Sorts (place : Nat → Int) (n : Nat) (positions : List Nat) : Prop where
  perm : positions.Perm (List.range n)
  pairwise : positions.Pairwise (Before place)

theorem insertSorted_places (entry : Nat → α) {p : Nat} {positions : List Nat}
    (h : positions.Pairwise (Before place)) (hp : ∀ q ∈ positions, q < p) :
    ∃ sorted : List Nat, Value.insertSorted (.int (place p)) (entry p)
        (positions.map fun q => (.int (place q), entry q)) =
        .ok (sorted.map fun q => (.int (place q), entry q)) ∧
      sorted.Perm (p :: positions) ∧ sorted.Pairwise (Before place) := by
  induction positions with
  | nil => exact ⟨[p], rfl, .refl _, pairwise_singleton _ _⟩
  | cons q rest ih =>
    rw [pairwise_cons] at h
    rw [forall_mem_cons] at hp
    rw [map_cons, Value.insertSorted, less_int, ok_bind]
    by_cases hlt : place p < place q
    · rw [decide_eq_true hlt]
      refine ⟨p :: q :: rest, rfl, .refl _, pairwise_cons.mpr ⟨?_, pairwise_cons.mpr h⟩⟩
      rw [forall_mem_cons]
      -- what is behind `q` has no smaller place than `q`
      refine ⟨.inl hlt, fun r hr => .inl ?_⟩
      have hqr := h.1 r hr
      unfold Before at hqr
      omega
    · rw [decide_eq_false hlt]
      obtain ⟨sorted, hsorted, hperm, hpairwise⟩ := ih h.2 hp.2
      refine ⟨q :: sorted, ?_, (hperm.cons q).trans (.swap _ _ _), pairwise_cons.mpr ⟨?_, hpairwise⟩⟩
      · rw [hsorted]
        rfl
      · intro r hr
        rcases mem_cons.mp (hperm.mem_iff.mp hr) with rfl | hr
        · have hq := hp.1
          unfold Before
          omega
        · exact h.1 r hr

theorem sortByKey_places (place : Nat → Int) (entry : Nat → α) (n : Nat) :
    ∃ positions, Value.sortByKey ((List.range n).map fun q => (.int (place q), entry q)) =
        .ok (positions.map fun q => (.int (place q), entry q)) ∧ Sorts place n positions := by
  induction n with
  | zero => exact ⟨[], rfl, .refl _, .nil⟩
  | succ n ih =>
    obtain ⟨positions, hpositions, hsorts⟩ := ih
    obtain ⟨sorted, hsorted, hperm, hpairwise⟩ := insertSorted_places entry hsorts.pairwise
      fun p hp => mem_range.mp (hsorts.perm.mem_iff.mp hp)
    refine ⟨sorted, ?_, ?_, hpairwise⟩
    · unfold Value.sortByKey at hpositions ⊢
      rw [range_succ, map_append, foldlM_append, hpositions, ok_bind]
      exact (congrArg (· >>= _) hsorted).trans rfl
    · rw [range_succ]
      exact hperm.trans ((hsorts.perm.cons n).trans (perm_append_singleton n _).symm)

theorem map_getD_range (items : List Value) :
    (List.range items.length).map (fun p => items[p]?.getD .null) = items := by
  refine ext_getElem (by simp) fun p hp hp' => ?_
  simp [getElem?_eq_getElem hp']

section

variable (hplace : ∀ (p : Nat) item, items[p]? = some item → key item = .ok (.int (place p)))

include hplace

/-- Sorting by whole numbers moves the positions of the items. -/
theorem exists_sorts : ∃ positions, Sorts place items.length positions ∧
    sortOn key items = .ok (positions.map fun p => items[p]?.getD .null) := by
  obtain ⟨positions, hpositions, hsorts⟩ :=
    sortByKey_places place (fun p => items[p]?.getD .null) items.length
  have hkeyed : (items.mapM fun item => do .ok (← key item, item)) =
      .ok ((List.range items.length).map fun p => (.int (place p), items[p]?.getD .null)) := by
    conv_lhs => rw [← map_getD_range items]
    rw [List.mapM_map]
    refine mapM_eq_map fun p hp => ?_
    have hp' := List.getElem?_eq_getElem (List.mem_range.mp hp)
    rw [Function.comp_apply, hp', Option.getD_some, hplace p _ hp']
    rfl
  refine ⟨positions, hsorts, ?_⟩
  rw [sortOn, hkeyed, ok_bind, hpositions, ok_bind, List.map_map]
  rfl

theorem filter_sortOn (p : Value → Bool)
    (h : ∀ (i j : Nat) a b, i < j → items[i]? = some a → items[j]? = some b → p a = true →
      p b = true → place i ≤ place j)
    (hsorted : sortOn key items = .ok sorted) : sorted.filter p = items.filter p := by
  obtain ⟨positions, hsorts, hrun⟩ := exists_sorts hplace
  obtain rfl := Except.ok.inj (hsorted.symm.trans hrun)
  conv_rhs => rw [← map_getD_range items]
  rw [List.filter_map, List.filter_map]
  -- both are the same positions in the same order
  refine congrArg (List.map _) ((hsorts.perm.filter _).eq_of_pairwise ?_ (hsorts.pairwise.filter _) ?_)
  · intro i j _ _ hij hji
    unfold Before at hij hji
    omega
  · refine List.Pairwise.imp_of_mem ?_ (List.pairwise_lt_range.filter _)
    intro i j hi hj hlt
    obtain ⟨hi, hpi⟩ := List.mem_filter.mp hi
    obtain ⟨hj, hpj⟩ := List.mem_filter.mp hj
    have hgi := List.getElem?_eq_getElem (List.mem_range.mp hi)
    have hgj := List.getElem?_eq_getElem (List.mem_range.mp hj)
    rw [Function.comp_apply, hgi] at hpi
    rw [Function.comp_apply, hgj] at hpj
    have hle := h i j _ _ hlt hgi hgj hpi hpj
    unfold Before
    omega

variable (place) in
theorem sortOn_sorted (h : ∀ i j, i < j → j < items.length → place i ≤ place j) :
    sortOn key items = .ok items := by
  obtain ⟨positions, -, hrun⟩ := exists_sorts hplace
  have hsame := filter_sortOn hplace (fun _ => true)
    (fun i j _ _ hlt _ hj _ _ => h i j hlt (List.getElem?_eq_some_iff.mp hj).1) hrun
  rw [filter_true, filter_true] at hsame
  rw [hrun, hsame]

variable (place) in
theorem sortOn_sortOn (hsorted : sortOn key items = .ok sorted) : sortOn key sorted = .ok sorted := by
  obtain ⟨positions, hsorts, hrun⟩ := exists_sorts hplace
  obtain rfl := Except.ok.inj (hsorted.symm.trans hrun)
  refine sortOn_sorted (fun i => place (positions[i]?.getD 0)) (fun i item hi => ?_)
    fun i j hlt hj => ?_
  · rw [getElem?_map, map_eq_some_iff] at hi
    obtain ⟨q, hq, rfl⟩ := hi
    have hlt := mem_range.mp (hsorts.perm.mem_iff.mp (mem_of_getElem? hq))
    rw [hq, getElem?_eq_getElem hlt]
    exact hplace q _ (getElem?_eq_getElem hlt)
  · rw [length_map] at hj
    have hbefore := pairwise_iff_getElem.mp hsorts.pairwise i j (by omega) hj hlt
    unfold Before at hbefore
    rw [getElem?_eq_getElem hj, getElem?_eq_getElem (by omega)]
    simp only [getD_some]
    omega

end

theorem sortOn_perm (h : ∀ item ∈ items, ∃ n : Int, key item = .ok (.int n)) :
    ∃ sorted, sortOn key items = .ok sorted ∧ sorted.Perm items := by
  choose! k hk using h
  have hplace (p : Nat) (item : Value) (hp : items[p]? = some item) :
      key item = .ok (.int (k (items[p]?.getD .null))) := by
    rw [hp]
    exact hk item (mem_of_getElem? hp)
  obtain ⟨positions, -, hrun⟩ := exists_sorts hplace
  exact ⟨_, hrun, perm_of_sortOn hrun⟩

end Places

/-! ## Fields of records -/

def itemsAt (name : String) (v : Value) : List Value :=
  match v.field? name with
  | some (.list items) => items
  | _ => []

def inputsOf (node : Value) : List Value := itemsAt "inputs" node

def outputsOf (node : Value) : List Value := itemsAt "outputs" node

def linksOf (output : Value) : List Value := itemsAt "links" output

def typeOf (v : Value) : Value := (v.field? "type").getD .null

def nameOf? (input : Value) : Option String := (input.field? "name").bind Value.text?

def linkNumber? (input : Value) : Option Value :=
  match input.field? "link" with
  | none | some .null => none
  | some link => some link

theorem field_eq_ok_iff {v w : Value} {name : String} :
    v.field name = .ok w ↔ v.field? name = some w := by
  unfold Value.field
  cases v.field? name <;> simp

theorem linkNumber?_eq_some_iff {input link : Value} :
    linkNumber? input = some link ↔ input.field? "link" = some link ∧ link ≠ .null := by
  unfold linkNumber?
  split
  next hnone => simp [hnone]
  next hnull => simp [hnull, eq_comm]
  next found hfound hsome =>
    rw [hsome, some.injEq]
    exact ⟨fun h => ⟨h, fun hnull => hfound (h ▸ hnull)⟩, And.left⟩

theorem of_sourceOf {g : Graph} {input id : Value} (h : sourceOf g input = .ok (some id)) :
    ∃ link l, linkNumber? input = some link ∧ g.link link = .ok l ∧ l.source = id := by
  obtain ⟨link, hlink, h⟩ := ok_of_bind h
  split at h
  · cases h
  next hnull =>
    obtain ⟨l, hl, h⟩ := ok_of_bind h
    exact ⟨link, l, linkNumber?_eq_some_iff.mpr ⟨field_eq_ok_iff.mp hlink, hnull⟩, hl,
      some.inj (Except.ok.inj h)⟩

theorem of_followedSource {g : Graph} {choice : Option (Multiplexer × String)} {input id : Value}
    (h : followedSource g choice input = .ok (some id)) : sourceOf g input = .ok (some id) := by
  unfold followedSource at h
  split at h
  · exact h
  · obtain ⟨kept, -, h⟩ := ok_of_bind h
    split at h
    · exact h
    · cases h

theorem typeOf_of_field {v type : Value} (h : v.field "type" = .ok type) : typeOf v = type := by
  rw [typeOf, field_eq_ok_iff.mp h, getD_some]

/-! ## Vertices under change -/

namespace Graph

theorem vertex?_modifyVertex (g : Graph) (id other : Value) {f : Vertex → Vertex}
    (hf : ∀ x, (f x).id = x.id) :
    (g.modifyVertex id f).vertex? other =
      (g.vertex? other).map fun x => if x.id == id then f x else x := by
  unfold vertex? modifyVertex
  rw [find?_map]
  have hids : ((fun x : Vertex => x.id == other) ∘ fun x => if x.id == id then f x else x) =
      fun x => x.id == other := by
    funext x
    by_cases hx : (x.id == id) = true
    · simp [hx, hf]
    · simp [hx]
  rw [hids]

end Graph

structure Graph.Beside (id : Value) (g g' : Graph) : Prop where
  edges : g'.edges = g.edges
  links : g'.links = g.links
  others : ∀ other v, g.vertex? other = some v → (v.id == id) = false → g'.vertex? other = some v

namespace Graph.Beside

variable {id : Value} {g g' g'' : Graph}

theorem refl (id : Value) (g : Graph) : Beside id g g := ⟨rfl, rfl, fun _ _ h _ => h⟩

theorem trans (h : Beside id g g') (h' : Beside id g' g'') : Beside id g g'' where
  edges := h'.edges.trans h.edges
  links := h'.links.trans h.links
  others other v hv hid := h'.others other v (h.others other v hv hid) hid

theorem modifyVertex (g : Graph) (id : Value) {f : Vertex → Vertex} (hf : ∀ x, (f x).id = x.id) :
    Beside id g (g.modifyVertex id f) := by
  refine ⟨rfl, rfl, fun other v hv hid => ?_⟩
  rw [Graph.vertex?_modifyVertex g id other hf, hv, map_some, hid]
  rfl

theorem endOf (h : Beside id g g') (link : Value) : g'.endOf link = g.endOf link := by
  unfold Graph.endOf Graph.link Graph.edge
  rw [h.edges, h.links]

end Graph.Beside

/-! ## Arguments -/

/-- A link that ends in the vertex `id` and whose source, another one, has the variable `x` for it;
`sole` tells whether no other link needs the variable. -/
def Holds (g : Graph) (id link : Value) (x : String) (sole : Bool) : Prop :=
  ∃ e v fields ids outputs output links, g.endOf link = .ok e ∧
    g.vertex? e.source = some v ∧ (v.id == id) = false ∧ v.outputIds = some ids ∧
    v.node = some (.record fields) ∧ Value.lookup "outputs" fields = some outputs ∧
    outputs.item e.sourceSlot = .ok output ∧ output.field "links" = .ok links ∧
    isSole links = .ok sole ∧ Table.find? e.sourceSlot ids = some x

section Holds

variable {g g' : Graph} {id link : Value} {x : String} {sole : Bool}

theorem Holds.of_beside (h : Holds g id link x sole) (hg : g.Beside id g') :
    Holds g' id link x sole := by
  obtain ⟨e, v, fields, ids, outputs, output, links, hend, hv, hid, hrest⟩ := h
  exact ⟨e, v, fields, ids, outputs, output, links, hg.endOf link ▸ hend,
    hg.others _ _ hv hid, hid, hrest⟩

theorem Holds.linkedArgument (h : Holds g id link x sole) (input : Value) :
    linkedArgument g input link = (input.field "type").map fun type => .held x type sole := by
  obtain ⟨e, v, fields, ids, outputs, output, links, hend, hv, -, hids, hnode, houtputs, hitem,
    hlinks, hsole, hfind⟩ := h
  have hfield : (Value.record fields).field "outputs" = .ok outputs := field_eq_ok_iff.mpr houtputs
  unfold Workflow.linkedArgument
  rw [hend, ok_bind, hv]
  simp only [hids, hnode, hfield, hfind, ok_bind, hitem, hlinks, hsole]
  cases input.field "type" <;> rfl

end Holds

section Linked

variable {g : Graph} {input : Value} {inputs : List Value}
  {before named : List (String × Argument)}

theorem putLinked_cases (h : putLinked g before input = .ok named) :
    linkNumber? input = none ∧ named = before ∨
      ∃ link a, linkNumber? input = some link ∧ linkedArgument g input link = .ok a ∧
        named = match nameOf? input with
          | some name => Table.put name a before
          | none => before := by
  unfold putLinked at h
  obtain ⟨link, hlink, h⟩ := ok_of_bind h
  have hlink? := field_eq_ok_iff.mp hlink
  split at h
  · cases h
    exact .inl ⟨by rw [linkNumber?, hlink?], rfl⟩
  next hne =>
    obtain ⟨a, ha, h⟩ := ok_of_bind h
    obtain ⟨name, hname, h⟩ := ok_of_bind h
    refine .inr ⟨link, a, linkNumber?_eq_some_iff.mpr ⟨hlink?, hne⟩, ha, ?_⟩
    unfold putArgument at h
    split at h
    · cases h
    · rw [nameOf?, field_eq_ok_iff.mp hname, bind_some]
      exact (Except.ok.inj h).symm

theorem find?_of_linkedArguments (h : linkedArguments g inputs before = .ok named)
    (hnames : ∀ i ∈ inputs, ∀ j ∈ inputs, linkNumber? i ≠ none → linkNumber? j ≠ none →
      nameOf? i = nameOf? j → i = j) :
    (∀ i ∈ inputs, ∀ link name, linkNumber? i = some link → nameOf? i = some name →
      ∃ a, linkedArgument g i link = .ok a ∧ Table.find? name named = some a) ∧
    ∀ name, (∀ i ∈ inputs, linkNumber? i ≠ none → nameOf? i ≠ some name) →
      Table.find? name named = Table.find? name before := by
  unfold linkedArguments at h
  induction inputs generalizing before with
  | nil =>
    cases h
    exact ⟨fun i hi => absurd hi not_mem_nil, fun _ _ => rfl⟩
  | cons i rest ih =>
    rw [foldlM_cons] at h
    obtain ⟨next, hput, h⟩ := ok_of_bind h
    obtain ⟨hlinked, hother⟩ := ih h fun j hj l hl =>
      hnames j (mem_cons_of_mem _ hj) l (mem_cons_of_mem _ hl)
    refine ⟨fun j hj link name hlink hname => ?_, fun name hname => ?_⟩
    · by_cases hrest : ∃ l ∈ rest, linkNumber? l ≠ none ∧ nameOf? l = some name
      · obtain ⟨l, hl, hllink, hlname⟩ := hrest
        have hlj : l = j := hnames l (mem_cons_of_mem _ hl) j hj hllink (by simp [hlink])
          (hlname.trans hname.symm)
        exact hlinked j (hlj ▸ hl) link name hlink hname
      · -- no later input has the name, so the argument stays as it was put in
        obtain rfl : j = i := by
          refine (mem_cons.mp hj).resolve_right fun hj => hrest ?_
          exact ⟨j, hj, by simp [hlink], hname⟩
        rcases putLinked_cases hput with ⟨hnone, -⟩ | ⟨link', a, hlink', ha, hnext⟩
        · rw [hlink] at hnone
          cases hnone
        · obtain rfl : link = link' := some.inj (hlink.symm.trans hlink')
          simp only [hname] at hnext
          refine ⟨a, ha, ?_⟩
          rw [hother name fun l hl hllink hlname => hrest ⟨l, hl, hllink, hlname⟩, hnext,
            Table.find?_put_self]
    · rw [hother name fun l hl => hname l (mem_cons_of_mem _ hl)]
      rcases putLinked_cases hput with ⟨-, rfl⟩ | ⟨link', a, hlink', -, hnext⟩
      · rfl
      · have hne := hname i mem_cons_self (by simp [hlink'])
        cases hi : nameOf? i with
        | none =>
          simp only [hi] at hnext
          rw [hnext]
        | some other =>
          simp only [hi] at hnext
          rw [hnext, Table.find?_put_of_ne fun heq => hne (hi.trans (congrArg some heq))]

end Linked

theorem find?_map_widget (name : String) (widgets : List (String × Value)) :
    Table.find? name (widgets.map fun (name, value) => (name, Argument.widget value)) =
      (Value.lookup name widgets).map Argument.widget := by
  induction widgets with
  | nil => rfl
  | cons entry rest ih =>
    obtain ⟨k, v⟩ := entry
    by_cases hk : (k == name) = true
    · simp [Table.find?, Value.lookup, hk]
    · simp [Table.find?, Value.lookup, hk, ih]

end Flowscript.Workflow
