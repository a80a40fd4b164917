import Flowscript.Workflow.Traversal
import Mathlib.Data.List.Perm.Subperm
import Mathlib.Data.List.Nodup
import Mathlib.Logic.Relation

/-!
# The order of a visit

Where links lead in no circle, the visit of a vertex that meets no fault puts it behind all that its
links lead to. At any time the vertices that are visited but not yet in the order are those on the
way to the present one, so none of them is met again; and the visit never runs out of depth, since
each level has one more of them.
-/

namespace Flowscript.Workflow

open List Option Relation

/-- Vertices that are told apart, and whose links lead to each other. -/
structure Navigable (next : Value → Reading Value) (ids : List Value) : Prop where
  eq_iff : ∀ x ∈ ids, ∀ y ∈ ids, (x == y) = true ↔ x = y
  hashable : ∀ x ∈ ids, x.hashable = true
  closed : ∀ x ∈ ids, ∀ y ∈ (next x).items, y ∈ ids

def Unknown (next : Value → Reading Value) (ids : List Value) (id : Value) : Prop :=
  (∀ x ∈ ids, (x == id) = false) ∧ (next id).fault ≠ none

def Feeds (next : Value → Reading Value) (x y : Value) : Prop := x ∈ (next y).items

namespace Walk

/-- A visit under way: what is in the order comes after all that its links lead to. -/
structure Sound (next : Value → Reading Value) (ids : List Value) (walk : Walk) : Prop where
  fault : walk.fault = none
  known : ∀ x ∈ walk.visited, x ∈ ids
  visited_nodup : walk.visited.Nodup
  finished : ∀ x ∈ walk.order, x ∈ walk.visited
  order_nodup : walk.order.Nodup
  readable : ∀ x ∈ walk.order, (next x).fault = none
  sorted : ∀ earlier x later, walk.order = earlier ++ x :: later →
    ∀ y ∈ (next x).items, y ∈ earlier

structure Continues (walk walk' : Walk) : Prop where
  order : ∀ x ∈ walk.order, x ∈ walk'.order
  visited : ∀ x ∈ walk.visited, x ∈ walk'.visited
  onWay : ∀ x ∈ walk'.visited, x ∉ walk'.order → x ∈ walk.visited ∧ x ∉ walk.order
  waiting : ∀ x ∈ walk.visited, x ∉ walk.order → x ∉ walk'.order

theorem Continues.refl (walk : Walk) : Continues walk walk :=
  ⟨fun _ h => h, fun _ h => h, fun _ h h' => ⟨h, h'⟩, fun _ _ h => h⟩

theorem Continues.trans {walk walk' walk'' : Walk} (h : Continues walk walk')
    (h' : Continues walk' walk'') : Continues walk walk'' where
  order x hx := h'.order x (h.order x hx)
  visited x hx := h'.visited x (h.visited x hx)
  onWay x hx hnot := by
    obtain ⟨hx', hnot'⟩ := h'.onWay x hx hnot
    exact h.onWay x hx' hnot'
  waiting x hx hnot := h'.waiting x (h.visited x hx) (h.waiting x hx hnot)

variable {next : Value → Reading Value} {ids : List Value} {walk walk' : Walk}

theorem Sound.length_visited_le (h : walk.Sound next ids) : walk.visited.length ≤ ids.length :=
  (subperm_of_subset h.visited_nodup h.known).length_le

theorem Sound.length_le_of_continues (h : walk.Sound next ids) (hc : Continues walk walk') :
    walk.visited.length ≤ walk'.visited.length :=
  (subperm_of_subset h.visited_nodup hc.visited).length_le

theorem sound_empty (next : Value → Reading Value) (ids : List Value) :
    Sound next ids ⟨[], [], none⟩ := by
  refine ⟨rfl, fun x hx => absurd hx not_mem_nil, nodup_nil,
    fun x hx => absurd hx not_mem_nil, nodup_nil,
    fun x hx => absurd hx not_mem_nil, fun earlier x later h => ?_⟩
  simp at h

theorem Sound.enter (h : walk.Sound next ids) {id : Value} (hid : id ∈ ids)
    (hnew : id ∉ walk.visited) : Sound next ids { walk with visited := id :: walk.visited } where
  fault := h.fault
  known x hx := (mem_cons.mp hx).elim (fun hx => hx ▸ hid) (h.known x)
  visited_nodup := nodup_cons.mpr ⟨hnew, h.visited_nodup⟩
  finished x hx := mem_cons_of_mem _ (h.finished x hx)
  order_nodup := h.order_nodup
  readable := h.readable
  sorted := h.sorted

theorem Sound.finish (h : walk.Sound next ids) {id : Value} (hvisited : id ∈ walk.visited)
    (hnew : id ∉ walk.order) (hread : (next id).fault = none)
    (hdone : ∀ y ∈ (next id).items, y ∈ walk.order) :
    Sound next ids { walk with order := walk.order ++ [id] } where
  fault := h.fault
  known := h.known
  visited_nodup := h.visited_nodup
  finished x hx := by
    rcases mem_append.mp hx with hold | hlast
    · exact h.finished x hold
    · exact mem_singleton.mp hlast ▸ hvisited
  order_nodup := by
    refine nodup_append.mpr ⟨h.order_nodup, nodup_singleton _, fun x hx y hy => ?_⟩
    rw [mem_singleton] at hy
    exact fun hxy => hnew (hy ▸ hxy ▸ hx)
  readable x hx := by
    rcases mem_append.mp hx with hold | hlast
    · exact h.readable x hold
    · exact mem_singleton.mp hlast ▸ hread
  sorted earlier x later horder := by
    rcases eq_nil_or_concat later with rfl | ⟨later, z, rfl⟩
    · obtain ⟨rfl, hlast⟩ := append_inj' horder rfl
      obtain rfl : id = x := by simpa using hlast
      exact hdone
    · have hsplit : walk.order ++ [id] = (earlier ++ x :: later) ++ [z] := by simpa using horder
      obtain ⟨horder', -⟩ := append_inj' hsplit rfl
      exact h.sorted earlier x later horder'

end Walk

theorem mem_order_foldl {step : Walk → Value → Walk} {R : Value → Value → Prop} {x : Value}
    (hstep : ∀ walk id, x ∈ (step walk id).order → x ∈ walk.order ∨ R x id) (items : List Value)
    {walk : Walk} (h : x ∈ (items.foldl step walk).order) :
    x ∈ walk.order ∨ ∃ y ∈ items, R x y := by
  induction items generalizing walk with
  | nil => exact .inl h
  | cons y rest ih =>
    rcases ih h with hfirst | ⟨z, hz, hxz⟩
    · exact (hstep walk y hfirst).imp_right fun hxy => ⟨y, mem_cons_self, hxy⟩
    · exact .inr ⟨z, mem_cons_of_mem _ hz, hxz⟩

theorem mem_order_visit {next : Value → Reading Value} (depth : Nat) {walk : Walk} {id x : Value}
    (h : x ∈ (visit next depth walk id).order) :
    x ∈ walk.order ∨ ReflTransGen (Feeds next) x id := by
  induction depth generalizing walk id with
  | zero => exact .inl h
  | succ depth ih =>
    have hitems : x ∈ ((next id).items.foldl (visit next depth)
        { walk with visited := id :: walk.visited }).order →
        x ∈ walk.order ∨ ReflTransGen (Feeds next) x id := fun h =>
      (mem_order_foldl (fun _ _ => ih) _ h).imp_right fun ⟨y, hy, hxy⟩ => hxy.tail hy
    unfold visit at h
    split at h
    · exact .inl h
    split at h
    · exact .inl h
    split at h
    · exact .inl h
    simp only at h
    split at h
    · exact hitems h
    · exact hitems h
    · rcases mem_append.mp h with h | h
      · exact hitems h
      · exact .inr (mem_singleton.mp h ▸ .refl)

section Faults

variable {next : Value → Reading Value} {ids : List Value} {walk : Walk} {id : Value}

theorem visit_of_fault (h : walk.fault ≠ none) (depth : Nat) (id : Value) :
    visit next depth walk id = walk := by
  cases depth with
  | zero => rfl
  | succ depth => exact if_pos (isSome_iff_ne_none.mpr h)

theorem fault_of_visit {depth : Nat} (h : (visit next depth walk id).fault = none) :
    walk.fault = none := by
  by_contra hfault
  exact hfault (visit_of_fault hfault depth id ▸ h)

theorem fault_of_foldl {depth : Nat} {items : List Value}
    (h : (items.foldl (visit next depth) walk).fault = none) : walk.fault = none := by
  induction items generalizing walk with
  | nil => exact h
  | cons y rest ih => exact fault_of_visit (ih h)

theorem fault_foldl {step : Walk → Value → Walk} {items : List Value}
    (hstep : ∀ walk, walk.fault = none → ∀ y ∈ items, (step walk y).fault = none)
    (h : walk.fault = none) : (items.foldl step walk).fault = none := by
  induction items generalizing walk with
  | nil => exact h
  | cons y rest ih =>
    exact ih (fun walk hwalk z hz => hstep walk hwalk z (mem_cons_of_mem _ hz))
      (hstep walk h y mem_cons_self)

theorem fault_visit (hnav : Navigable next ids) (hread : ∀ x ∈ ids, (next x).fault = none) (depth : Nat)
    (hid : id ∈ ids) (h : walk.fault = none) :
    (visit next depth walk id).fault = none := by
  induction depth generalizing walk id with
  | zero => exact h
  | succ depth ih =>
    have hitems : ((next id).items.foldl (visit next depth)
        { walk with visited := id :: walk.visited }).fault = none :=
      fault_foldl (fun walk hwalk y hy => ih (hnav.closed id hid y hy) hwalk) h
    unfold visit
    rw [if_neg (by simp [h]), if_neg (by simp [hnav.hashable id hid])]
    split
    · exact h
    · simp only [hitems, hread id hid]

theorem fault_walk (hnav : Navigable next ids) (hread : ∀ x ∈ ids, (next x).fault = none)
    (depth : Nat) {ends : List Value} (hends : ∀ id ∈ ends, id ∈ ids) :
    (ends.foldl (visit next depth) ⟨[], [], none⟩).fault = none :=
  fault_foldl (fun _ hwalk y hy => fault_visit hnav hread depth (hends y hy) hwalk) rfl

theorem fault_of_unknown (hs : walk.Sound next ids) (hid : Unknown next ids id) (depth : Nat) :
    (visit next (depth + 1) walk id).fault ≠ none := by
  have hany : (walk.visited.any fun x => x == id) = false := by
    rw [List.any_eq_false]
    intro x hx
    rw [hid.1 x (hs.known x hx)]
    exact Bool.false_ne_true
  unfold visit
  split
  next hfault => exact isSome_iff_ne_none.mp hfault
  split
  · exact some_ne_none _
  rw [hany, if_neg Bool.false_ne_true]
  dsimp only
  split
  next hfault => exact hfault ▸ some_ne_none _
  · exact some_ne_none _
  next hread => exact absurd hread hid.2

end Faults

section Visit

variable {next : Value → Reading Value} {ids : List Value} (hnav : Navigable next ids)
  (hacyclic : ∀ x ∈ ids, ¬ TransGen (Feeds next) x x)

/-- The vertices on the way to a vertex need it. -/
def OnWay (next : Value → Reading Value) (walk : Walk) (id : Value) : Prop :=
  ∀ x ∈ walk.visited, x ∉ walk.order → TransGen (Feeds next) id x

/-- What the visit of a vertex does if it meets no fault. -/
def Visits (next : Value → Reading Value) (ids : List Value) (depth : Nat) : Prop :=
  ∀ walk id, walk.Sound next ids → id ∈ ids → OnWay next walk id →
    ids.length < depth + walk.visited.length → (visit next depth walk id).fault = none →
    (visit next depth walk id).Sound next ids ∧ walk.Continues (visit next depth walk id) ∧
      id ∈ (visit next depth walk id).order

theorem visits_foldl {depth : Nat} (hvisit : Visits next ids depth) (items : List Value)
    {walk : Walk} (hs : walk.Sound next ids) (hids : ∀ y ∈ items, y ∈ ids ∨ Unknown next ids y)
    (hway : ∀ y ∈ items, OnWay next walk y) (hdepth : ids.length < depth + walk.visited.length)
    (hfault : (items.foldl (visit next depth) walk).fault = none) :
    (items.foldl (visit next depth) walk).Sound next ids ∧
      walk.Continues (items.foldl (visit next depth) walk) ∧
      ∀ y ∈ items, y ∈ (items.foldl (visit next depth) walk).order := by
  induction items generalizing walk with
  | nil => exact ⟨hs, .refl walk, fun y hy => absurd hy not_mem_nil⟩
  | cons y rest ih =>
    have hfault₁ : (visit next depth walk y).fault = none := fault_of_foldl hfault
    have hy : y ∈ ids := by
      refine (hids y mem_cons_self).resolve_right fun hunknown => ?_
      obtain ⟨depth', rfl⟩ : ∃ k, depth = k + 1 := by
        have := hs.length_visited_le
        exact ⟨depth - 1, by omega⟩
      exact fault_of_unknown hs hunknown depth' hfault₁
    obtain ⟨hs₁, hc₁, hy₁⟩ := hvisit walk y hs hy (hway y mem_cons_self) hdepth hfault₁
    have hway₁ : ∀ z ∈ rest, OnWay next (visit next depth walk y) z := by
      intro z hz x hx hnot
      obtain ⟨hx', hnot'⟩ := hc₁.onWay x hx hnot
      exact hway z (mem_cons_of_mem _ hz) x hx' hnot'
    have hdepth₁ : ids.length < depth + (visit next depth walk y).visited.length := by
      have := hs.length_le_of_continues hc₁
      omega
    obtain ⟨hs₂, hc₂, hrest⟩ := ih hs₁ (fun z hz => hids z (mem_cons_of_mem _ hz)) hway₁
      hdepth₁ hfault
    refine ⟨hs₂, hc₁.trans hc₂, fun z hz => ?_⟩
    rcases mem_cons.mp hz with rfl | hz
    · exact hc₂.order _ hy₁
    · exact hrest z hz

include hnav hacyclic

theorem sound_visit (depth : Nat) : Visits next ids depth := by
  induction depth with
  | zero =>
    intro walk id hs _ _ hdepth
    have := hs.length_visited_le
    omega
  | succ depth ih =>
    intro walk id hs hid hway hdepth hfault
    have hany : (walk.visited.any fun x => x == id) = true ↔ id ∈ walk.visited := by
      rw [List.any_eq_true]
      constructor
      · rintro ⟨x, hx, hxid⟩
        exact (hnav.eq_iff x (hs.known x hx) id hid).mp hxid ▸ hx
      · exact fun h => ⟨id, h, (hnav.eq_iff id hid id hid).mpr rfl⟩
    unfold visit at hfault ⊢
    rw [if_neg (by simp [hs.fault]), if_neg (by simp [hnav.hashable id hid])] at hfault ⊢
    by_cases hvisited : id ∈ walk.visited
    · rw [if_pos (hany.mpr hvisited)]
      refine ⟨hs, .refl walk, ?_⟩
      by_contra hnot
      exact hacyclic id hid (hway id hvisited hnot)
    rw [if_neg (fun h => hvisited (hany.mp h))] at hfault ⊢
    dsimp only at hfault
    generalize hwalk₁ : (next id).items.foldl (visit next depth)
      { walk with visited := id :: walk.visited } = walk₁ at hfault
    obtain ⟨hfault₁, hread⟩ : walk₁.fault = none ∧ (next id).fault = none := by
      split at hfault
      next hsome => exact absurd (hsome.symm.trans hfault) (some_ne_none _)
      · cases hfault
      next hnone hread => exact ⟨hnone, hread⟩
    have hway' : ∀ y ∈ (next id).items,
        OnWay next { walk with visited := id :: walk.visited } y := by
      intro y hy x hx hnot
      rcases mem_cons.mp hx with rfl | hx
      · exact .single hy
      · exact .head hy (hway x hx hnot)
    obtain ⟨hs₁, hc₁, hall⟩ := visits_foldl ih (next id).items (hs.enter hid hvisited)
      (fun y hy => .inl (hnav.closed id hid y hy)) hway' (by simp only [length_cons]; omega)
      (hwalk₁ ▸ hfault₁)
    rw [hwalk₁] at hs₁ hc₁ hall
    have hlast : id ∉ walk₁.order :=
      hc₁.waiting id mem_cons_self fun hin => hvisited (hs.finished id hin)
    have hin : id ∈ walk₁.visited := hc₁.visited id mem_cons_self
    simp only [hwalk₁, hs₁.fault, hread]
    refine ⟨hs₁.fault ▸ hs₁.finish hin hlast hread hall, ⟨fun x hx => ?_, fun x hx => ?_,
      fun x hx hnot => ?_, fun x hx hnot => ?_⟩, by simp⟩
    · exact mem_append_left _ (hc₁.order x hx)
    · exact hc₁.visited x (mem_cons_of_mem _ hx)
    · rw [mem_append, mem_singleton, not_or] at hnot
      obtain ⟨hx', hnot'⟩ := hc₁.onWay x hx hnot.1
      exact ⟨(mem_cons.mp hx').resolve_left hnot.2, hnot'⟩
    · rw [mem_append, mem_singleton, not_or]
      exact ⟨hc₁.waiting x (mem_cons_of_mem _ hx) hnot, fun hxid => hvisited (hxid ▸ hx)⟩

theorem sound_walk {depth : Nat} (hdepth : ids.length < depth) {ends : List Value}
    (hends : ∀ id ∈ ends, id ∈ ids ∨ Unknown next ids id)
    (hfault : (ends.foldl (visit next depth) ⟨[], [], none⟩).fault = none) :
    (ends.foldl (visit next depth) ⟨[], [], none⟩).Sound next ids ∧
      ∀ id ∈ ends, id ∈ (ends.foldl (visit next depth) ⟨[], [], none⟩).order := by
  obtain ⟨hs, -, hall⟩ := visits_foldl (sound_visit hnav hacyclic depth) ends
    (Walk.sound_empty next ids) hends (fun y _ x hx => absurd hx not_mem_nil)
    (by simpa using hdepth) hfault
  exact ⟨hs, hall⟩

end Visit

namespace Walk

structure Tidy (walk : Walk) : Prop where
  finished : ∀ x ∈ walk.order, x ∈ walk.visited
  nodup : (walk.order.filter fun x => x == x).Nodup

structure Leads (walk walk' : Walk) : Prop where
  visited : ∀ x ∈ walk.visited, x ∈ walk'.visited
  order : ∀ x ∈ walk'.order, (x == x) = true → x ∈ walk.visited → x ∈ walk.order

variable {walk walk' walk'' : Walk}

theorem Leads.refl (walk : Walk) : walk.Leads walk := ⟨fun _ h => h, fun _ h _ _ => h⟩

theorem Leads.trans (h : walk.Leads walk') (h' : walk'.Leads walk'') : walk.Leads walk'' where
  visited x hx := h'.visited x (h.visited x hx)
  order x hx hself hvisited := h.order x (h'.order x hx hself (h.visited x hvisited)) hself hvisited

theorem Tidy.visit {next : Value → Reading Value} (depth : Nat) (h : walk.Tidy) (id : Value) :
    (visit next depth walk id).Tidy ∧ walk.Leads (visit next depth walk id) := by
  induction depth generalizing walk id with
  | zero => exact ⟨h, .refl walk⟩
  | succ depth ih =>
    have hfold (items : List Value) {walk : Walk} (h : walk.Tidy) :
        (items.foldl (Workflow.visit next depth) walk).Tidy ∧
          walk.Leads (items.foldl (Workflow.visit next depth) walk) := by
      induction items generalizing walk with
      | nil => exact ⟨h, .refl walk⟩
      | cons item rest ihrest =>
        obtain ⟨hfirst, hleads⟩ := ih h item
        obtain ⟨hrest, hleads'⟩ := ihrest hfirst
        exact ⟨hrest, hleads.trans hleads'⟩
    unfold Workflow.visit
    split
    · exact ⟨h, .refl walk⟩
    split
    · exact ⟨⟨h.finished, h.nodup⟩, ⟨fun _ hx => hx, fun _ hx _ _ => hx⟩⟩
    split
    · exact ⟨h, .refl walk⟩
    next hnew =>
      dsimp only
      have hentered : ({ walk with visited := id :: walk.visited } : Walk).Tidy :=
        ⟨fun x hx => mem_cons_of_mem _ (h.finished x hx), h.nodup⟩
      have henter : walk.Leads { walk with visited := id :: walk.visited } :=
        ⟨fun x hx => mem_cons_of_mem _ hx, fun x hx _ _ => hx⟩
      obtain ⟨htidy, hleads⟩ := hfold (next id).items hentered
      generalize (next id).items.foldl (Workflow.visit next depth)
        { walk with visited := id :: walk.visited } = walk₁ at htidy hleads
      have hlater := henter.trans hleads
      split
      · exact ⟨htidy, hlater⟩
      · exact ⟨⟨htidy.finished, htidy.nodup⟩, ⟨hlater.visited, hlater.order⟩⟩
      · -- the vertex was not visited before, so it is not in the order yet
        have hunvisited (hself : (id == id) = true) : id ∉ walk.visited := by
          intro hmem
          exact hnew (any_eq_true.mpr ⟨id, hmem, hself⟩)
        have hfresh (hself : (id == id) = true) : id ∉ walk₁.order := by
          intro hmem
          exact hunvisited hself (h.finished id (hleads.order id hmem hself mem_cons_self))
        refine ⟨⟨fun x hx => ?_, ?_⟩, ⟨hlater.visited, fun x hx hself hvisited => ?_⟩⟩
        · rcases mem_append.mp hx with hold | hlast
          · exact htidy.finished x hold
          · exact mem_singleton.mp hlast ▸ hleads.visited id mem_cons_self
        · rw [filter_append]
          by_cases hself : (id == id) = true
          · rw [filter_singleton, hself, cond_true]
            refine nodup_append.mpr ⟨htidy.nodup, nodup_singleton _, fun x hx y hy hxy => ?_⟩
            rw [mem_singleton.mp hy] at hxy
            exact hfresh hself (hxy ▸ mem_of_mem_filter hx)
          · rw [Bool.not_eq_true] at hself
            rw [filter_singleton, hself, cond_false, append_nil]
            exact htidy.nodup
        · rcases mem_append.mp hx with hold | hlast
          · exact hlater.order x hold hself hvisited
          · obtain rfl := mem_singleton.mp hlast
            exact absurd hvisited (hunvisited hself)

def Readable (next : Value → Reading Value) (walk : Walk) : Prop :=
  ∀ x ∈ walk.order, (next x).fault = none

theorem Readable.visit {next : Value → Reading Value} (depth : Nat) (h : walk.Readable next) (id : Value) :
    (visit next depth walk id).Readable next := by
  induction depth generalizing walk id with
  | zero => exact h
  | succ depth ih =>
    have hfold (items : List Value) {walk : Walk} (h : walk.Readable next) :
        (items.foldl (Workflow.visit next depth) walk).Readable next := by
      induction items generalizing walk with
      | nil => exact h
      | cons item rest ihrest => exact ihrest (ih h item)
    unfold Workflow.visit
    split
    · exact h
    split
    · exact h
    split
    · exact h
    · dsimp only
      have hstart : Readable next { walk with visited := id :: walk.visited } := h
      have hentered := hfold (next id).items hstart
      split
      · exact hentered
      · exact hentered
      next hread =>
        intro x hx
        rcases mem_append.mp hx with hold | hlast
        · exact hentered x hold
        · exact mem_singleton.mp hlast ▸ hread

end Walk

end Flowscript.Workflow
