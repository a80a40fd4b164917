import Flowscript.Proofs.Workflow.Places
import Flowscript.Proofs.Workflow.Effects

/-!
# Targets and output slots

The outputs of a node are sorted by their slots, and those without one are put last. Then each gets a
target, and what is used is recorded for its slot, or for where it has come to stand if it has none.
So the target at the slot of an output is what is recorded for it if sorting leaves the used outputs
where they are; and if the targets tell the outputs apart, then only if it does.
-/

namespace Flowscript.Workflow

open List Option

variable {d d' : Draft}

def ListsLinks (o : Value) : Prop :=
  o.field? "links" = some .null ∨ ∃ links, o.field? "links" = some (.list links)

def recordsOf (single : Bool) (items : List (Value × Nat)) (names : List String) :
    List (Value × String) :=
  (items.zip names).filterMap fun entry =>
    if (linksOf entry.1.1).isEmpty then none else some (slotOf entry.1.1 single entry.1.2, entry.2)

def recordsIn (sorted : List Value) (names : List String) : List (Value × String) :=
  recordsOf (sorted.length == 1) sorted.zipIdx names

theorem mem_recordsIn_iff {sorted : List Value} {names : List String} {entry : Value × String} :
    entry ∈ recordsIn sorted names ↔ ∃ (i : Nat) (o : Value), sorted[i]? = some o ∧
      names[i]? = some entry.2 ∧ linksOf o ≠ [] ∧ entry.1 = slotOf o (sorted.length == 1) i := by
  unfold recordsIn recordsOf
  rw [mem_filterMap]
  constructor
  · rintro ⟨⟨⟨o, i⟩, x⟩, hmem, hentry⟩
    obtain ⟨k, hk⟩ := mem_iff_getElem?.mp hmem
    rw [getElem?_zip_eq_some, getElem?_zipIdx, map_eq_some_iff] at hk
    obtain ⟨⟨o', ho', heq⟩, hx⟩ := hk
    simp only [Nat.zero_add, Prod.mk.injEq] at heq
    obtain ⟨rfl, rfl⟩ := heq
    dsimp only at hentry hx
    split at hentry
    · cases hentry
    next hne =>
      obtain rfl := some.inj hentry
      exact ⟨k, o', ho', hx, by simpa using hne, rfl⟩
  · rintro ⟨i, o, ho, hx, hne, hslot⟩
    refine ⟨((o, i), entry.2), mem_iff_getElem?.mpr ⟨i, ?_⟩, ?_⟩
    · rw [getElem?_zip_eq_some, getElem?_zipIdx, ho]
      exact ⟨by simp, hx⟩
    · rw [if_neg (by simpa using hne), ← hslot]

section Targets

variable {id node : Value} {single : Bool} {t : Targets}

theorem keptFrom_chooseVariable {output : Value} {t' : Targets} {x : String}
    (h : (chooseVariable node output single t).run d = (.ok (x, t'), d')) :
    KeptFrom t.arguments t'.arguments := by
  obtain ⟨twins, -, ⟨i, a, -, -, -, -, rfl⟩ | ⟨-, ⟨i, a, -, -, rfl⟩ | ⟨-, rfl⟩⟩⟩ := chooseVariable_cases h
  · exact KeptFrom.modify rfl i
  · rfl
  · rfl

theorem keptFrom_assignOutput {output : Value} {t' : Targets} {position : Nat}
    (h : (assignOutput id node single t output position).run d = (.ok t', d')) :
    KeptFrom t.arguments t'.arguments := by
  obtain ⟨-, rfl, -⟩ | ⟨-, x, t₁, d₁, hchoose, -, rfl⟩ := assignOutput_cases h
  · rfl
  · exact (keptFrom_chooseVariable hchoose :)

theorem of_run_assignEach_records {items : List (Value × Nat)} {arguments : List Argument}
    (hlinks : ∀ item ∈ items, ListsLinks item.1)
    (h : (items.foldlM (fun t (output, i) => assignOutput id node single t output i)
      ⟨arguments, [], [], false⟩).run d = (.ok t, d')) :
    KeptFrom arguments t.arguments ∧ t.names.length = items.length ∧
      (∀ entry ∈ items.zip t.names, linksOf entry.1.1 = [] → entry.2 = "_") ∧
      d'.graph = d.graph.modifyVertex id (Mark.ofRecorded (recordsOf single items t.names)).apply := by
  let Recorded (done : List (Value × Nat)) (t : Targets) (s : Draft) : Prop :=
    KeptFrom arguments t.arguments ∧ t.names.length = done.length ∧
      (∀ entry ∈ done.zip t.names, linksOf entry.1.1 = [] → entry.2 = "_") ∧
      s.graph = d.graph.modifyVertex id (Mark.ofRecorded (recordsOf single done t.names)).apply
  have hstart : Recorded [] ⟨arguments, [], [], false⟩ d :=
    ⟨rfl, rfl, nofun, (Mark.modifyVertex_ofRecorded_nil d.graph id).symm⟩
  refine of_run_foldlM Recorded (fun done item rest t₁ d₁ t₂ d₂ hitems hinv hstep => ?_) hstart h
  obtain ⟨hkept, hlength, hblank, hgraph⟩ := hinv
  obtain ⟨recorded, names', hany, -, x, hnames, hrecords⟩ := of_run_assignOutput_any hstep
  have hd₂ : d₂.graph = d₁.graph.modifyVertex id (Mark.ofRecorded recorded).apply :=
    congrArg (fun result => result.2.graph) (hstep.symm.trans (hany d₁.graph))
  have hused := isUsed_eq (hlinks item (hitems ▸ by simp))
  have hrecorded : recorded = recordsOf single [item] [x] ∧ (linksOf item.1 = [] → x = "_") := by
    unfold recordsOf
    rcases hrecords with ⟨hfalse, rfl, rfl⟩ | ⟨htrue, rfl⟩
    · rw [hused, Except.ok.injEq, Bool.not_eq_false', List.isEmpty_iff] at hfalse
      simp [hfalse]
    · rw [hused, Except.ok.injEq, Bool.not_eq_true', isEmpty_eq_false_iff] at htrue
      simp [htrue]
  have hzip : (done ++ [item]).zip t₂.names = done.zip t₁.names ++ [(item, x)] := by
    rw [hnames, zip_append hlength.symm]
    rfl
  refine ⟨?_, ?_, ?_, ?_⟩
  · exact (keptFrom_assignOutput hstep).trans hkept
  · rw [hnames, length_append, length_append, hlength]
    rfl
  · rw [hzip]
    intro entry hentry
    rcases mem_append.mp hentry with hold | hnew
    · exact hblank entry hold
    · rw [mem_singleton.mp hnew]
      exact hrecorded.2
  · have happend : recordsOf single (done ++ [item]) t₂.names =
        recordsOf single done t₁.names ++ recorded := by
      rw [hrecorded.1]
      unfold recordsOf
      rw [hzip, filterMap_append]
      rfl
    rw [hd₂, hgraph, Graph.modifyVertex_modifyVertex _ id _ _ (Mark.id_apply _),
      Mark.apply_ofRecorded_comp, happend]
    rfl

theorem outputIds_modifyVertex (g : Graph) (id : Value) {f : Vertex → Vertex}
    (hf : ∀ x, (f x).id = x.id) :
    ((g.modifyVertex id f).vertex? id).map Vertex.outputIds =
      (g.vertex? id).map fun x => (f x).outputIds := by
  rw [Graph.vertex?_modifyVertex g id id hf, Option.map_map]
  cases hx : g.vertex? id with
  | none => rfl
  | some x =>
    have hid : (x.id == id) = true := List.find?_some (p := fun x : Vertex => x.id == id) hx
    simp [hid]

theorem of_run_assignOutputs_records {arguments : List Argument}
    (hlinks : ∀ o ∈ outputsOf node, ListsLinks o)
    (h : (assignOutputs id node arguments).run d = (.ok t, d')) :
    KeptFrom arguments t.arguments ∧ t.names.length = (outputsOf node).length ∧
      ∃ sorted, sortOn (fun o => .ok (placeOfOutput o)) (outputsOf node) = .ok sorted ∧
        (∀ entry ∈ sorted.zip t.names, linksOf entry.1 = [] → entry.2 = "_") ∧
        (d'.graph.vertex? id).map Vertex.outputIds = (d.graph.vertex? id).map fun x =>
          recordAll (recordsIn sorted t.names) x.outputIds := by
  obtain ⟨hfield, rfl, rfl⟩ | ⟨items, sorted, hfield, hsorted, hrun⟩ := assignOutputs_cases h
  · have houtputs : outputsOf node = [] := by rw [outputsOf, itemsAt, hfield]
    rw [houtputs]
    exact ⟨rfl, rfl, [], rfl, fun entry hentry => absurd hentry not_mem_nil, rfl⟩
  · have houtputs : outputsOf node = items := by rw [outputsOf, itemsAt, hfield]
    rw [houtputs] at hlinks ⊢
    have hperm := perm_of_sortOn hsorted
    obtain ⟨hkept, hlength, hblank, hgraph⟩ := of_run_assignEach_records
      (fun item hitem => hlinks _ (hperm.mem_iff.mp (fst_mem_of_mem_zipIdx hitem))) hrun
    rw [length_zipIdx] at hlength
    refine ⟨hkept, hlength.trans hperm.length_eq, sorted, hsorted, fun entry hentry => ?_, ?_⟩
    · obtain ⟨k, hk⟩ := mem_iff_getElem?.mp hentry
      rw [getElem?_zip_eq_some] at hk
      refine hblank ((entry.1, k), entry.2) (mem_iff_getElem?.mpr ⟨k, ?_⟩)
      rw [getElem?_zip_eq_some, getElem?_zipIdx, hk.1]
      exact ⟨by simp, hk.2⟩
    · have hsame := outputIds_modifyVertex d.graph id
        (f := fun x => { x with node := x.node.map (setField "outputs" (.list sorted)) }) fun _ => rfl
      have hrecord (recorded : List (Value × String)) :
          (fun x => ((Mark.ofRecorded recorded).apply x).outputIds) =
            recordAll recorded ∘ Vertex.outputIds := rfl
      rw [hgraph, outputIds_modifyVertex _ id (Mark.id_apply _), hrecord, ← Option.map_map, hsame,
        Option.map_map]
      rfl

end Targets

theorem find?_recordAll {recorded : List (Value × String)}
    (h : ∀ entry ∈ recorded, ∃ n, entry.1 = .int n) (s : Int) :
    (∀ x, (recordAll recorded none).bind (Table.find? (.int s)) = some x → (.int s, x) ∈ recorded) ∧
      ∀ x, (.int s, x) ∈ recorded →
        ∃ y, (recordAll recorded none).bind (Table.find? (.int s)) = some y := by
  have hgetD (ids : Option (List (Value × String))) :
      ids.bind (Table.find? (.int s)) = Table.find? (.int s) (ids.getD []) := by
    cases ids <;> rfl
  rw [hgetD]
  suffices hall : (∀ key ∈ ((recordAll recorded none).getD []).map Prod.fst, ∃ n, key = .int n) ∧
      (∀ x, Table.find? (.int s) ((recordAll recorded none).getD []) = some x → (.int s, x) ∈ recorded) ∧
      ∀ x, (.int s, x) ∈ recorded →
        ∃ y, Table.find? (.int s) ((recordAll recorded none).getD []) = some y from hall.2
  induction recorded using List.reverseRecOn with
  | nil => exact ⟨nofun, nofun, nofun⟩
  | append_singleton recorded entry ih =>
    obtain ⟨key, x⟩ := entry
    obtain ⟨n, rfl⟩ : ∃ n, key = .int n := h (key, x) (by simp)
    obtain ⟨hkeys, hmem, hsome⟩ := ih fun entry hentry => h entry (mem_append_left _ hentry)
    have hlast : recordAll (recorded ++ [(.int n, x)]) none =
        some (Table.put (.int n) x ((recordAll recorded none).getD [])) := foldl_append
    rw [hlast, getD_some, Value.find?_put_int hkeys]
    refine ⟨?_, fun y hy => ?_, fun y hy => ?_⟩
    · rcases Table.map_fst_put (.int n) x ((recordAll recorded none).getD []) with hsame | ⟨-, hmore⟩
      · rw [hsame]
        exact hkeys
      · rw [hmore]
        intro key hkey
        rcases mem_append.mp hkey with hold | hnew
        · exact hkeys key hold
        · exact ⟨n, mem_singleton.mp hnew⟩
    · split at hy
      next heq =>
        rw [← heq, ← some.inj hy]
        exact mem_append_right _ mem_cons_self
      · exact mem_append_left _ (hmem y hy)
    · split
      · exact ⟨x, rfl⟩
      next hne =>
        rcases mem_append.mp hy with hold | hnew
        · exact hsome y hold
        · exact absurd (Value.int.inj (Prod.mk.inj (mem_singleton.mp hnew)).1).symm hne

/-- The place of the output at a position: its slot, or behind all others if it has none. -/
def placeAt (outputs : List Value) (p : Nat) : Int :=
  match outputs[p]?.bind (·.field? "slot_index") with
  | some (.int n) => n
  | _ => 0xFFFFFFFF

def UsedAt (outputs : List Value) (p : Nat) : Prop := ∃ o, outputs[p]? = some o ∧ linksOf o ≠ []

def OwnedAt (outputs : List Value) (p : Nat) : Prop :=
  ∃ o slot, outputs[p]? = some o ∧ o.field? "slot_index" = some slot

def SlotsMatch (outputs : List Value) : Prop :=
  ∀ (p : Nat) o, outputs[p]? = some o →
    o.field? "slot_index" = none ∨ o.field? "slot_index" = some (.int p)

/-- No output with links stands behind one with a later place, or before one with an earlier place. -/
def Orderly (outputs : List Value) : Prop :=
  ∀ p q, p < q → q < outputs.length → UsedAt outputs p ∨ UsedAt outputs q →
    placeAt outputs p ≤ placeAt outputs q

/-- Every output has a target at its slot: what is held for the slot if it has links, and otherwise
`_`. -/
def LinesUp (held : Nat → Option String) (outputs : List Value) (targets : List String) : Prop :=
  ∀ (slot : Nat) o, outputs[slot]? = some o → ∃ x, targets[slot]? = some x ∧
    (linksOf o = [] → x = "_") ∧ (linksOf o ≠ [] → held slot = some x)

/-- The targets tell which output is which: those of outputs with links are different variables, none
of them `_`. -/
structure Discernible (outputs : List Value) (targets : List String) : Prop where
  distinct : ∀ (i j : Nat) x, targets[i]? = some x → targets[j]? = some x → x ≠ "_" → i = j
  blanks : targets.countP (fun x => decide (x = "_")) = outputs.countP fun o => (linksOf o).isEmpty

section Places

variable {outputs : List Value} (hslots : SlotsMatch outputs) {p : Nat}

include hslots

theorem placeAt_of_ownedAt (h : OwnedAt outputs p) : placeAt outputs p = p := by
  obtain ⟨o, slot, ho, hslot⟩ := h
  rcases hslots p o ho with hnone | hsome
  · rw [hslot] at hnone
    cases hnone
  · simp [placeAt, ho, hsome]

omit hslots in
theorem placeAt_of_not_ownedAt (h : ¬ OwnedAt outputs p) : placeAt outputs p = 0xFFFFFFFF := by
  unfold placeAt
  cases hslot : outputs[p]?.bind (·.field? "slot_index") with
  | none => rfl
  | some slot =>
    obtain ⟨o, ho, hslot⟩ := bind_eq_some_iff.mp hslot
    exact absurd ⟨o, slot, ho, hslot⟩ h

theorem placeOfOutput_eq {o : Value} (ho : outputs[p]? = some o) :
    placeOfOutput o = .int (placeAt outputs p) := by
  unfold placeOfOutput placeAt
  rw [ho, bind_some]
  rcases hslots p o ho with hslot | hslot <;> rw [hslot] <;> rfl

theorem slotOf_eq {o : Value} (ho : outputs[p]? = some o) {i : Nat} {single : Bool}
    (hsingle : single = true → i = 0) :
    OwnedAt outputs p ∧ slotOf o single i = .int p ∨
      ¬ OwnedAt outputs p ∧ slotOf o single i = .int i := by
  unfold slotOf
  rcases hslots p o ho with hslot | hslot
  · refine .inr ⟨?_, ?_⟩
    · rintro ⟨o', slot, ho', hslot'⟩
      obtain rfl := some.inj (ho.symm.trans ho')
      rw [hslot] at hslot'
      cases hslot'
    · rw [hslot]
      cases single with
      | true => simp [hsingle rfl]
      | false => rfl
  · exact .inl ⟨⟨o, _, ho, hslot⟩, by rw [hslot]⟩

theorem before_or_before : (∀ q < outputs.length, Before (placeAt outputs) q p → q < p) ∨
    ∀ q < outputs.length, q < p → Before (placeAt outputs) q p := by
  have hplace (q : Nat) : placeAt outputs q = q ∨ placeAt outputs q = 0xFFFFFFFF := by
    by_cases hq : OwnedAt outputs q
    · exact .inl (placeAt_of_ownedAt hslots hq)
    · exact .inr (placeAt_of_not_ownedAt hq)
  unfold Before
  rcases hplace p with hp | hp
  · by_cases hlast : (p : Int) ≤ 0xFFFFFFFF
    · left
      intro q _ hq
      have hq' := hplace q
      omega
    · right
      intro q _ hq
      have hq' := hplace q
      omega
  · by_cases hlast : (p : Int) < 0xFFFFFFFF
    · right
      intro q _ hq
      have hq' := hplace q
      omega
    · left
      intro q _ hq
      have hq' := hplace q
      omega

end Places

theorem blank_iff_of_countP {items : List Value} {names : List String}
    (hlength : names.length = items.length)
    (hcount : names.countP (fun x => decide (x = "_")) = items.countP fun o => (linksOf o).isEmpty)
    (h : ∀ (i : Nat) o x, items[i]? = some o → names[i]? = some x → linksOf o = [] → x = "_") {i : Nat}
    {o : Value} {x : String} (ho : items[i]? = some o) (hx : names[i]? = some x) :
    linksOf o = [] ↔ x = "_" := by
  have hfst : (items.zip names).map Prod.fst = items := map_fst_zip hlength.ge
  have hsnd : (items.zip names).map Prod.snd = names := map_snd_zip hlength.le
  have hmem : (o, x) ∈ items.zip names :=
    mem_iff_getElem?.mpr ⟨i, getElem?_zip_eq_some.mpr ⟨ho, hx⟩⟩
  refine ⟨h i o x ho hx, fun hblank => ?_⟩
  have himp : ∀ entry ∈ items.zip names, ((fun o => (linksOf o).isEmpty) ∘ Prod.fst) entry = true →
      ((fun x => decide (x = "_")) ∘ Prod.snd) entry = true := by
    intro entry hentry hnil
    obtain ⟨k, hk⟩ := mem_iff_getElem?.mp hentry
    obtain ⟨hok, hxk⟩ := getElem?_zip_eq_some.mp hk
    exact decide_eq_true (h k entry.1 entry.2 hok hxk (isEmpty_iff.mp hnil))
  have hsame : (items.zip names).countP ((fun o => (linksOf o).isEmpty) ∘ Prod.fst) =
      (items.zip names).countP ((fun x => decide (x = "_")) ∘ Prod.snd) := by
    rw [← countP_map, ← countP_map, hfst, hsnd, hcount]
  have hempty := forall_of_countP_eq himp hsame (o, x) hmem (decide_eq_true hblank)
  exact isEmpty_iff.mp hempty

section Alignment

variable {outputs sorted : List Value} {positions : List Nat} {names : List String}
  (hslots : SlotsMatch outputs) (hsorts : Sorts (placeAt outputs) outputs.length positions)
  (hsorted : ∀ i : Nat, sorted[i]? = positions[i]?.bind (outputs[·]?))
  (hlength : names.length = outputs.length)
  (hblank : ∀ entry ∈ sorted.zip names, linksOf entry.1 = [] → entry.2 = "_")

def heldIn (sorted : List Value) (names : List String) (s : Nat) : Option String :=
  (recordAll (recordsIn sorted names) none).bind (Table.find? (.int s))

include hslots hsorted

theorem exists_slotOf {i : Nat} {o : Value} (ho : sorted[i]? = some o) :
    ∃ p, positions[i]? = some p ∧ outputs[p]? = some o ∧
      (OwnedAt outputs p ∧ slotOf o (sorted.length == 1) i = .int p ∨
        ¬ OwnedAt outputs p ∧ slotOf o (sorted.length == 1) i = .int i) := by
  obtain ⟨hlt, -⟩ := List.getElem?_eq_some_iff.mp ho
  rw [hsorted, bind_eq_some_iff] at ho
  obtain ⟨p, hi, ho⟩ := ho
  refine ⟨p, hi, ho, slotOf_eq hslots ho fun hsingle => ?_⟩
  have hone : sorted.length = 1 := by simpa using hsingle
  omega

theorem mem_recordsIn_iff_positions {s : Nat} {x : String} :
    (.int s, x) ∈ recordsIn sorted names ↔
      ∃ i p : Nat, positions[i]? = some p ∧ UsedAt outputs p ∧ names[i]? = some x ∧
        (OwnedAt outputs p ∧ p = s ∨ ¬ OwnedAt outputs p ∧ i = s) := by
  have hint {m n : Nat} : (.int m : Value) = .int n ↔ n = m := by
    rw [Value.int.injEq, Int.natCast_inj, eq_comm]
  rw [mem_recordsIn_iff]
  constructor
  · rintro ⟨i, o, ho, hx, hne, heq⟩
    obtain ⟨p, hi, ho, hslot⟩ := exists_slotOf hslots hsorted ho
    refine ⟨i, p, hi, ⟨o, ho, hne⟩, hx, ?_⟩
    rwa [← heq, hint, hint] at hslot
  · rintro ⟨i, p, hi, ⟨o, ho, hne⟩, hx, hown⟩
    have hoi : sorted[i]? = some o := by rw [hsorted, hi, bind_some, ho]
    obtain ⟨p', hi', -, hslot⟩ := exists_slotOf hslots hsorted hoi
    obtain rfl := some.inj (hi.symm.trans hi')
    refine ⟨i, o, hoi, hx, hne, ?_⟩
    rcases hown with ⟨hown, rfl⟩ | ⟨hown, rfl⟩
    · exact (hslot.resolve_right fun h => h.1 hown).2.symm
    · exact (hslot.resolve_left fun h => hown h.1).2.symm

theorem exists_int_of_mem_recordsIn {entry : Value × String} (h : entry ∈ recordsIn sorted names) :
    ∃ n : Nat, entry.1 = .int n := by
  obtain ⟨i, o, ho, -, -, heq⟩ := mem_recordsIn_iff.mp h
  obtain ⟨p, -, -, ⟨-, hslot⟩ | ⟨-, hslot⟩⟩ := exists_slotOf hslots hsorted ho
  · exact ⟨p, heq.trans hslot⟩
  · exact ⟨i, heq.trans hslot⟩

theorem heldIn_spec (s : Nat) :
    (∀ x, heldIn sorted names s = some x → (.int s, x) ∈ recordsIn sorted names) ∧
      ∀ x, (.int s, x) ∈ recordsIn sorted names → ∃ y, heldIn sorted names s = some y :=
  find?_recordAll (fun _ hentry => (exists_int_of_mem_recordsIn hslots hsorted hentry).elim
    fun n hn => ⟨n, hn⟩) s

include hsorts

omit hsorted in
theorem stay_iff_orderly : (∀ p, UsedAt outputs p → positions[p]? = some p) ↔ Orderly outputs := by
  have hlt {p : Nat} (h : UsedAt outputs p) : p < outputs.length := by
    obtain ⟨o, ho, -⟩ := h
    exact (List.getElem?_eq_some_iff.mp ho).1
  have hstay {p : Nat} (h : UsedAt outputs p) : positions[p]? = some p ↔
      ∀ q < outputs.length, (Before (placeAt outputs) q p ↔ q < p) :=
    hsorts.getElem?_self_iff (hlt h) (before_or_before hslots)
  constructor
  · rintro h p q hpq hq (hused | hused)
    · have hbefore := (hstay hused).mp (h p hused) q hq
      unfold Before at hbefore
      omega
    · have hbefore := (hstay hused).mp (h q hused) p (hpq.trans hq)
      unfold Before at hbefore
      omega
  · intro h p hused
    refine (hstay hused).mpr fun q hq => ?_
    unfold Before
    rcases Nat.lt_trichotomy p q with hpq | rfl | hqp
    · have hle := h p q hpq hq (.inl hused)
      omega
    · omega
    · have hle := h q p hqp (hlt hused) (.inr hused)
      omega

include hlength hblank

theorem linesUp_of_stay (hstay : ∀ p, UsedAt outputs p → positions[p]? = some p) :
    LinesUp (heldIn sorted names) outputs names := by
  -- what is used stands where it stood
  have hself {i p : Nat} (hi : positions[i]? = some p) (hp : UsedAt outputs p) : i = p :=
    hsorts.inj hi (hstay p hp)
  intro slot o ho
  obtain ⟨hlt, -⟩ := List.getElem?_eq_some_iff.mp ho
  obtain ⟨x, hx⟩ : ∃ x, names[slot]? = some x := ⟨_, getElem?_eq_getElem (hlength ▸ hlt)⟩
  refine ⟨x, hx, fun hnil => ?_, fun hne => ?_⟩
  · obtain ⟨p, hp⟩ := hsorts.exists_getElem?_of_lt hlt
    obtain ⟨o', ho'⟩ : ∃ o', outputs[p]? = some o' :=
      ⟨_, getElem?_eq_getElem (hsorts.lt_of_getElem? hp)⟩
    have hentry : (o', x) ∈ sorted.zip names := by
      refine mem_iff_getElem?.mpr ⟨slot, ?_⟩
      rw [getElem?_zip_eq_some, hsorted, hp, bind_some]
      exact ⟨ho', hx⟩
    refine hblank (o', x) hentry ?_
    by_contra hne
    obtain rfl := hself hp ⟨o', ho', hne⟩
    exact hne (some.inj (ho.symm.trans ho') ▸ hnil)
  · have hused : UsedAt outputs slot := ⟨o, ho, hne⟩
    have hmem : (.int slot, x) ∈ recordsIn sorted names :=
      (mem_recordsIn_iff_positions hslots hsorted).mpr ⟨slot, slot, hstay slot hused, hused, hx,
        (em (OwnedAt outputs slot)).imp (fun h => ⟨h, rfl⟩) fun h => ⟨h, rfl⟩⟩
    obtain ⟨y, hy⟩ := (heldIn_spec hslots hsorted slot).2 x hmem
    obtain ⟨i, p, hi, hp, hyi, hslot⟩ := (mem_recordsIn_iff_positions hslots hsorted).mp
      ((heldIn_spec hslots hsorted slot).1 y hy)
    have hip := hself hi hp
    obtain rfl : i = slot := by
      rcases hslot with ⟨-, hps⟩ | ⟨-, his⟩
      · exact hip.trans hps
      · exact his
    rw [hy, ← hyi, hx]

theorem stay_of_linesUp (hperm : sorted.Perm outputs) (hdiscernible : Discernible outputs names)
    (h : LinesUp (heldIn sorted names) outputs names) :
    ∀ p, UsedAt outputs p → positions[p]? = some p := by
  have hsortedBlank {i : Nat} {o : Value} {x : String} (ho : sorted[i]? = some o)
      (hx : names[i]? = some x) : linksOf o = [] ↔ x = "_" := by
    refine blank_iff_of_countP (hlength.trans hperm.length_eq.symm)
      (hdiscernible.blanks.trans (hperm.countP_eq _).symm) (fun k o x hok hxk => ?_) ho hx
    exact hblank (o, x) (mem_iff_getElem?.mpr ⟨k, getElem?_zip_eq_some.mpr ⟨hok, hxk⟩⟩)
  have houtputBlank {i : Nat} {o : Value} {x : String} (ho : outputs[i]? = some o)
      (hx : names[i]? = some x) : linksOf o = [] ↔ x = "_" := by
    refine blank_iff_of_countP hlength hdiscernible.blanks (fun k o x hok hxk hnil => ?_) ho hx
    obtain ⟨y, hy, hyblank, -⟩ := h k o hok
    exact some.inj (hxk.symm.trans hy) ▸ hyblank hnil
  -- a target other than `_` tells both that the output at its position is used and that the one is
  -- which has come there
  have hused (i p : Nat) (hi : positions[i]? = some p) : UsedAt outputs i ↔ UsedAt outputs p := by
    have hlt : i < outputs.length := hsorts.length_eq ▸ (List.getElem?_eq_some_iff.mp hi).1
    obtain ⟨o, ho⟩ : ∃ o, outputs[i]? = some o := ⟨_, getElem?_eq_getElem hlt⟩
    obtain ⟨o', ho'⟩ : ∃ o', outputs[p]? = some o' :=
      ⟨_, getElem?_eq_getElem (hsorts.lt_of_getElem? hi)⟩
    obtain ⟨x, hx⟩ : ∃ x, names[i]? = some x := ⟨_, getElem?_eq_getElem (hlength ▸ hlt)⟩
    have hsame := houtputBlank ho hx
    rw [← hsortedBlank (by rw [hsorted, hi, bind_some, ho']) hx] at hsame
    simp only [UsedAt, ho, ho', some.injEq, exists_eq_left', ne_eq, hsame]
  have howned (i p : Nat) (hi : positions[i]? = some p) (hui : UsedAt outputs i)
      (hp : OwnedAt outputs p) : p = i := by
    obtain ⟨o, ho, hne⟩ := hui
    obtain ⟨x, hx, -, hheld⟩ := h i o ho
    obtain ⟨j, q, hj, -, hxj, hslot⟩ := (mem_recordsIn_iff_positions hslots hsorted).mp
      ((heldIn_spec hslots hsorted i).1 x (hheld hne))
    obtain rfl := hdiscernible.distinct i j x hx hxj fun hblank => hne ((houtputBlank ho hx).mpr hblank)
    obtain rfl := some.inj (hi.symm.trans hj)
    exact (hslot.resolve_right fun hnot => hnot.1 hp).2
  intro p hp
  obtain ⟨o, ho, -⟩ := id hp
  obtain ⟨q, hq⟩ := hsorts.exists_getElem?_of_lt (List.getElem?_eq_some_iff.mp ho).1
  rw [hq, hsorts.eq_of_used hused howned (fun p q hnp hnq => by
    rw [placeAt_of_not_ownedAt hnp, placeAt_of_not_ownedAt hnq]) hq hp]

end Alignment

end Flowscript.Workflow
