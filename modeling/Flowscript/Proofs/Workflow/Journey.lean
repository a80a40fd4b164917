import Flowscript.Proofs.Workflow.Traversal

/-!
# Visits as journeys

A journey is the recursion of the visit without a bound on its depth: it passes over what was
visited, and enters all else. Where all vertices can be read, the bounded visit makes a whole
journey, whether links lead in circles or not. What a journey adds to the order it has visited, and
it leaves no link of it unvisited.
-/

namespace Flowscript.Workflow

open List Relation

/-- The visits of vertices in turn: a visited one is passed over, and any other is entered, which
makes a journey through all that its links lead to before the vertex comes into the order. -/
inductive Journey (next : Value → Reading Value) : Walk → List Value → Walk → Prop
  | done (walk : Walk) : Journey next walk [] walk
  | pass {walk walk' : Walk} {id : Value} {rest : List Value} (hvisited : id ∈ walk.visited)
      (hrest : Journey next walk rest walk') : Journey next walk (id :: rest) walk'
  | enter {walk walk₁ walk' : Walk} {id : Value} {rest : List Value} (hnew : id ∉ walk.visited)
      (hitems : Journey next { walk with visited := id :: walk.visited } (next id).items walk₁)
      (hrest : Journey next { walk₁ with order := walk₁.order ++ [id] } rest walk') :
      Journey next walk (id :: rest) walk'

namespace Walk

/-- A walk with more vertices in the order: they are also what is visited anew, and so are the
vertices that their links lead to, unless they were visited before. -/
structure Grows (next : Value → Reading Value) (walk : Walk) (new : List Value) (walk' : Walk) :
    Prop where
  fault : walk'.fault = walk.fault
  order : walk'.order = walk.order ++ new
  visited : walk'.visited.Perm (new ++ walk.visited)
  links : ∀ x ∈ new, ∀ y ∈ (next x).items, y ∈ walk'.visited

/-- Only known vertices are visited, and each of them once. -/
structure Within (ids : List Value) (walk : Walk) : Prop where
  known : ∀ x ∈ walk.visited, x ∈ ids
  nodup : walk.visited.Nodup

variable {next : Value → Reading Value} {ids : List Value} {walk walk' : Walk}

theorem Within.length_le (h : walk.Within ids) : walk.visited.length ≤ ids.length :=
  (subperm_of_subset h.nodup h.known).length_le

theorem Within.enter (h : walk.Within ids) {id : Value} (hid : id ∈ ids) (hnew : id ∉ walk.visited) :
    Within ids { walk with visited := id :: walk.visited } where
  known x hx := (mem_cons.mp hx).elim (fun hx => hx ▸ hid) (h.known x)
  nodup := nodup_cons.mpr ⟨hnew, h.nodup⟩

theorem Grows.visited_subset {new : List Value} (h : walk.Grows next new walk') {x : Value}
    (hx : x ∈ walk.visited) : x ∈ walk'.visited :=
  h.visited.mem_iff.mpr (mem_append_right _ hx)

theorem Grows.length_le {new : List Value} (h : walk.Grows next new walk') :
    walk.visited.length ≤ walk'.visited.length := by
  rw [h.visited.length_eq, length_append]
  exact Nat.le_add_left _ _

end Walk

namespace Journey

variable {next : Value → Reading Value} {ids : List Value} {walk walk' : Walk} {items : List Value}

theorem grows (h : Journey next walk items walk') :
    ∃ new, walk.Grows next new walk' ∧ ∀ y ∈ items, y ∈ walk'.visited := by
  induction h with
  | done walk =>
    exact ⟨[], ⟨rfl, (append_nil _).symm, .refl _, fun x hx => absurd hx not_mem_nil⟩,
      fun y hy => absurd hy not_mem_nil⟩
  | pass hvisited _ ih =>
    obtain ⟨new, hgrows, hrest⟩ := ih
    refine ⟨new, hgrows, fun y hy => ?_⟩
    rcases mem_cons.mp hy with rfl | hy
    · exact hgrows.visited_subset hvisited
    · exact hrest y hy
  | @enter walk walk₁ walk' id rest hnew _ _ ihitems ihrest =>
    obtain ⟨inner, hinner, hitems⟩ := ihitems
    obtain ⟨outer, houter, hrest⟩ := ihrest
    have hid : id ∈ walk'.visited :=
      houter.visited_subset (hinner.visited_subset mem_cons_self)
    refine ⟨inner ++ id :: outer, ⟨houter.fault.trans hinner.fault, ?_, ?_, ?_⟩, fun y hy => ?_⟩
    · rw [houter.order, hinner.order, append_assoc, append_assoc, singleton_append]
    · calc walk'.visited.Perm (outer ++ walk₁.visited) := houter.visited
        _ |>.Perm (outer ++ (inner ++ id :: walk.visited)) := hinner.visited.append_left outer
        _ |>.Perm ((inner ++ id :: walk.visited) ++ outer) := perm_append_comm
        _ |>.Perm (inner ++ (id :: outer ++ walk.visited)) := by
          rw [append_assoc]
          exact (perm_append_comm.cons id).append_left inner
        _ = (inner ++ id :: outer) ++ walk.visited := (append_assoc _ _ _).symm
    · intro x hx y hy
      rcases mem_append.mp hx with hx | hx
      · exact houter.visited_subset (hinner.links x hx y hy)
      rcases mem_cons.mp hx with rfl | hx
      · exact houter.visited_subset (hitems y hy)
      · exact houter.links x hx y hy
    · rcases mem_cons.mp hy with rfl | hy
      · exact hid
      · exact hrest y hy

theorem within (hclosed : ∀ x ∈ ids, ∀ y ∈ (next x).items, y ∈ ids)
    (h : Journey next walk items walk') (hitems : ∀ y ∈ items, y ∈ ids) (hwalk : walk.Within ids) :
    walk'.Within ids := by
  induction h with
  | done walk => exact hwalk
  | pass _ _ ih => exact ih (fun y hy => hitems y (mem_cons_of_mem _ hy)) hwalk
  | @enter walk walk₁ walk' id rest hnew _ _ ihitems ihrest =>
    have hid := hitems id mem_cons_self
    have hinner := ihitems (hclosed id hid) (hwalk.enter hid hnew)
    exact ihrest (fun y hy => hitems y (mem_cons_of_mem _ hy)) ⟨hinner.known, hinner.nodup⟩

end Journey

section Visit

variable {next : Value → Reading Value} {ids : List Value} (hnav : Navigable next ids)
  (hread : ∀ x ∈ ids, (next x).fault = none)

include hnav

theorem any_visited_iff {walk : Walk} (hwalk : walk.Within ids) {id : Value} (hid : id ∈ ids) :
    (walk.visited.any fun x => x == id) = true ↔ id ∈ walk.visited := by
  rw [any_eq_true]
  constructor
  · rintro ⟨x, hx, hxid⟩
    exact (hnav.eq_iff x (hwalk.known x hx) id hid).mp hxid ▸ hx
  · exact fun h => ⟨id, h, (hnav.eq_iff id hid id hid).mpr rfl⟩

include hread

/-- Bounded visits make a whole journey if the bound allows for all vertices that are not visited:
each level of the recursion visits one of them. -/
theorem journey_foldl (depth : Nat) (items : List Value) {walk : Walk} (hfault : walk.fault = none)
    (hwalk : walk.Within ids) (hitems : ∀ y ∈ items, y ∈ ids)
    (hdepth : ids.length < depth + walk.visited.length) :
    Journey next walk items (items.foldl (visit next depth) walk) := by
  induction depth generalizing walk items with
  | zero =>
    have := hwalk.length_le
    omega
  | succ depth ih =>
    induction items generalizing walk with
    | nil => exact .done walk
    | cons id rest ihrest =>
      have hid : id ∈ ids := hitems id mem_cons_self
      have hrest : ∀ y ∈ rest, y ∈ ids := fun y hy => hitems y (mem_cons_of_mem _ hy)
      rw [foldl_cons]
      unfold visit
      rw [if_neg (by simp [hfault]), if_neg (by simp [hnav.hashable id hid])]
      by_cases hvisited : id ∈ walk.visited
      · rw [if_pos ((any_visited_iff hnav hwalk hid).mpr hvisited)]
        exact .pass hvisited (ihrest hfault hwalk hrest hdepth)
      rw [if_neg fun h => hvisited ((any_visited_iff hnav hwalk hid).mp h)]
      dsimp only
      have hjourney : Journey next { walk with visited := id :: walk.visited } (next id).items
          ((next id).items.foldl (visit next depth) { walk with visited := id :: walk.visited }) :=
        ih (next id).items hfault (hwalk.enter hid hvisited) (hnav.closed id hid)
          (by simp only [length_cons]; omega)
      generalize (next id).items.foldl (visit next depth)
        { walk with visited := id :: walk.visited } = walk₁ at hjourney
      obtain ⟨new, hgrows, -⟩ := hjourney.grows
      have hfault₁ : walk₁.fault = none := hgrows.fault.trans hfault
      have hwithin := hjourney.within hnav.closed (hnav.closed id hid) (hwalk.enter hid hvisited)
      have hlength := hgrows.length_le
      simp only [hfault₁, hread id hid]
      refine .enter hvisited hjourney ?_
      rw [hfault₁]
      exact ihrest rfl ⟨hwithin.known, hwithin.nodup⟩ hrest
        (by simp only [length_cons] at hlength ⊢; omega)

variable {depth : Nat} (hdepth : ids.length < depth) {ends : List Value} (hends : ∀ id ∈ ends, id ∈ ids)

include hdepth hends

theorem journey_walk :
    Journey next ⟨[], [], none⟩ ends (ends.foldl (visit next depth) ⟨[], [], none⟩) :=
  journey_foldl hnav hread depth ends rfl ⟨fun x hx => absurd hx not_mem_nil, nodup_nil⟩
    hends (by simpa using hdepth)

theorem within_order_walk : (∀ x ∈ (ends.foldl (visit next depth) ⟨[], [], none⟩).order, x ∈ ids) ∧
    (ends.foldl (visit next depth) ⟨[], [], none⟩).order.Nodup := by
  have hjourney := journey_walk hnav hread hdepth hends
  obtain ⟨new, hgrows, -⟩ := hjourney.grows
  have hwithin := hjourney.within hnav.closed hends ⟨fun x hx => absurd hx not_mem_nil, nodup_nil⟩
  have horder : (ends.foldl (visit next depth) ⟨[], [], none⟩).visited.Perm
      (ends.foldl (visit next depth) ⟨[], [], none⟩).order := by
    rw [hgrows.order]
    simpa using hgrows.visited
  exact ⟨fun x hx => hwithin.known x (horder.mem_iff.mpr hx), horder.nodup_iff.mp hwithin.nodup⟩

theorem mem_order_walk_iff {x : Value} : x ∈ (ends.foldl (visit next depth) ⟨[], [], none⟩).order ↔
    ∃ e ∈ ends, ReflTransGen (Feeds next) x e := by
  obtain ⟨new, hgrows, hall⟩ := (journey_walk hnav hread hdepth hends).grows
  generalize hwalk : ends.foldl (visit next depth) ⟨[], [], none⟩ = walk at hgrows hall ⊢
  have horder : walk.order = new := hgrows.order
  have hvisited : ∀ y, y ∈ walk.visited ↔ y ∈ new := fun y => by simpa using hgrows.visited.mem_iff
  constructor
  · intro hx
    rcases mem_order_foldl (fun _ _ => mem_order_visit depth) ends (hwalk ▸ hx) with hnil | hneeded
    · exact absurd hnil not_mem_nil
    · exact hneeded
  · rintro ⟨e, he, hpath⟩
    rw [horder]
    -- the order has the end node, and with a vertex all that its links lead to
    induction hpath using ReflTransGen.head_induction_on with
    | refl => exact (hvisited e).mp (hall e he)
    | @head y z hstep _ ih => exact (hvisited y).mp (hgrows.links z ih y hstep)

theorem sorted_walk (hacyclic : ∀ x, (∃ e ∈ ends, ReflTransGen (Feeds next) x e) →
      ¬ TransGen (Feeds next) x x) {earlier later : List Value} {x : Value}
    (horder : (ends.foldl (visit next depth) ⟨[], [], none⟩).order = earlier ++ x :: later) :
    ∀ y ∈ (next x).items, y ∈ earlier := by
  classical
  let needed : List Value := ids.filter fun x => ∃ e ∈ ends, ReflTransGen (Feeds next) x e
  have hneeded {x : Value} : x ∈ needed ↔ x ∈ ids ∧ ∃ e ∈ ends, ReflTransGen (Feeds next) x e := by
    simp [needed]
  have hnav' : Navigable next needed := by
    refine ⟨fun x hx y hy => hnav.eq_iff x (hneeded.mp hx).1 y (hneeded.mp hy).1,
      fun x hx => hnav.hashable x (hneeded.mp hx).1, fun x hx y hy => ?_⟩
    obtain ⟨hid, e, he, hpath⟩ := hneeded.mp hx
    exact hneeded.mpr ⟨hnav.closed x hid y hy, e, he, .head hy hpath⟩
  have hlength : needed.length < depth := Nat.lt_of_le_of_lt (length_filter_le _ _) hdepth
  obtain ⟨hsound, -⟩ := sound_walk hnav' (fun x hx => hacyclic x (hneeded.mp hx).2) hlength
    (fun id hid => .inl (hneeded.mpr ⟨hends id hid, id, hid, .refl⟩)) (fault_walk hnav hread depth hends)
  exact hsound.sorted earlier x later horder

end Visit

end Flowscript.Workflow
