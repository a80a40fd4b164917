import Flowscript.Proofs.Workflow.Naming
import Mathlib.Data.List.Range

/-!
# The places of outputs

The outputs of a node are sorted by place before they get their targets. Sorting moves the positions
of the outputs: which of them stay is a matter of counting how many outputs come before one in the
order of places, and how many stand before it.
-/

namespace Flowscript.Workflow

open List

theorem forall_of_countP_eq {α : Type} {p q : α → Bool} {items : List α}
    (himp : ∀ a ∈ items, p a = true → q a = true) (hcount : items.countP p = items.countP q) :
    ∀ a ∈ items, q a = true → p a = true := by
  induction items with
  | nil => exact fun a ha => absurd ha not_mem_nil
  | cons a rest ih =>
    rw [forall_mem_cons] at himp ⊢
    have hle : rest.countP p ≤ rest.countP q := countP_mono_left himp.2
    rw [countP_cons, countP_cons] at hcount
    cases hp : p a with
    | true =>
      rw [hp, himp.1 hp] at hcount
      exact ⟨fun _ => rfl, ih himp.2 (by simpa using hcount)⟩
    | false =>
      cases hq : q a with
      | true =>
        rw [hp, hq] at hcount
        simp only [Bool.false_eq_true, if_false, if_true] at hcount
        omega
      | false =>
        rw [hp, hq] at hcount
        exact ⟨fun h => h, ih himp.2 (by simpa using hcount)⟩

theorem countP_lt_range {p n : Nat} (h : p ≤ n) : (List.range n).countP (fun q => decide (q < p)) = p := by
  induction n with
  | zero => exact (Nat.le_zero.mp h).symm
  | succ n ih =>
    rw [range_succ, countP_append, countP_singleton]
    by_cases hp : p ≤ n
    · rw [ih hp, decide_eq_false (by omega)]
      rfl
    · obtain rfl : p = n + 1 := by omega
      rw [countP_eq_length.mpr, length_range, decide_eq_true (by omega)]
      · rfl
      · intro q hq
        have hlt := mem_range.mp hq
        exact decide_eq_true (by omega)

theorem exists_positions {place : Nat → Int} {outputs sorted : List Value}
    (hplace : ∀ (p : Nat) o, outputs[p]? = some o → placeOfOutput o = .int (place p))
    (h : sortOn (fun o => .ok (placeOfOutput o)) outputs = .ok sorted) :
    ∃ positions, Sorts place outputs.length positions ∧
      ∀ i : Nat, sorted[i]? = positions[i]?.bind (outputs[·]?) := by
  obtain ⟨positions, hsorts, hrun⟩ := exists_sorts fun p o ho => congrArg Except.ok (hplace p o ho)
  obtain rfl := Except.ok.inj (h.symm.trans hrun)
  refine ⟨positions, hsorts, fun i => ?_⟩
  rw [getElem?_map]
  cases hi : positions[i]? with
  | none => rfl
  | some p =>
    have hp := mem_range.mp (hsorts.perm.mem_iff.mp (mem_of_getElem? hi))
    simp [getElem?_eq_getElem hp]

namespace Sorts

variable {place : Nat → Int} {n : Nat} {positions : List Nat} (h : Sorts place n positions) {i p : Nat}

include h

theorem lt_of_getElem? (hi : positions[i]? = some p) : p < n :=
  mem_range.mp (h.perm.mem_iff.mp (mem_of_getElem? hi))

theorem length_eq : positions.length = n := by
  rw [h.perm.length_eq, length_range]

theorem exists_getElem? (hp : p < n) : ∃ i : Nat, positions[i]? = some p :=
  mem_iff_getElem?.mp (h.perm.mem_iff.mpr (mem_range.mpr hp))

theorem exists_getElem?_of_lt (hi : i < n) : ∃ p, positions[i]? = some p :=
  ⟨_, getElem?_eq_getElem (h.length_eq.symm ▸ hi)⟩

theorem inj {j : Nat} (hi : positions[i]? = some p) (hj : positions[j]? = some p) : i = j := by
  have hnodup : positions.Nodup := h.perm.nodup_iff.mpr nodup_range
  obtain ⟨hlt, hpi⟩ := List.getElem?_eq_some_iff.mp hi
  obtain ⟨hlt', hpj⟩ := List.getElem?_eq_some_iff.mp hj
  exact (List.Nodup.getElem_inj_iff hnodup).mp (hpi.trans hpj.symm)

theorem before {j q : Nat} (hi : positions[i]? = some p) (hj : positions[j]? = some q) (hlt : i < j) :
    Before place p q := by
  obtain ⟨hli, rfl⟩ := List.getElem?_eq_some_iff.mp hi
  obtain ⟨hlj, rfl⟩ := List.getElem?_eq_some_iff.mp hj
  exact pairwise_iff_getElem.mp h.pairwise i j hli hlj hlt

theorem eq_countP (hi : positions[i]? = some p) :
    i = (List.range n).countP fun q => decide (Before place q p) := by
  obtain ⟨hlt, hp⟩ := List.getElem?_eq_some_iff.mp hi
  have hsplit : positions = positions.take i ++ p :: positions.drop (i + 1) := by
    rw [← hp, ← drop_eq_getElem_cons hlt, take_append_drop]
  have hpairwise := h.pairwise
  rw [hsplit, pairwise_append, pairwise_cons] at hpairwise
  obtain ⟨-, ⟨hbehind, -⟩, hfront⟩ := hpairwise
  rw [← h.perm.countP_eq, hsplit, countP_append, countP_eq_length.mpr, countP_eq_zero.mpr,
    length_take]
  · omega
  · intro q hq
    rw [decide_eq_true_iff]
    rcases mem_cons.mp hq with rfl | hq
    · unfold Before
      omega
    · have hpq := hbehind q hq
      unfold Before at hpq ⊢
      omega
  · exact fun q hq => decide_eq_true (hfront q hq p mem_cons_self)

theorem getElem?_self_iff (hp : p < n)
    (hone : (∀ q < n, Before place q p → q < p) ∨ ∀ q < n, q < p → Before place q p) :
    positions[p]? = some p ↔ ∀ q < n, (Before place q p ↔ q < p) := by
  obtain ⟨i, hi⟩ := h.exists_getElem? hp
  have hcount := h.eq_countP hi
  have hself := countP_lt_range (Nat.le_of_lt hp)
  constructor
  · intro hpos q hq
    rw [h.inj hi hpos] at hcount
    have hmem := mem_range.mpr hq
    rcases hone with himp | himp
    · refine ⟨himp q hq, fun hlt => of_decide_eq_true ?_⟩
      exact forall_of_countP_eq (fun a ha hbefore => decide_eq_true
        (himp a (mem_range.mp ha) (of_decide_eq_true hbefore))) (hcount.symm.trans hself.symm) q hmem
        (decide_eq_true hlt)
    · refine ⟨fun hbefore => of_decide_eq_true ?_, himp q hq⟩
      exact forall_of_countP_eq (fun a ha hlt => decide_eq_true
        (himp a (mem_range.mp ha) (of_decide_eq_true hlt))) (hself.trans hcount) q hmem
        (decide_eq_true hbefore)
  · intro hsame
    have heq : i = p := by
      rw [hcount, ← hself]
      refine countP_congr fun q hq => ?_
      rw [decide_eq_true_iff, decide_eq_true_iff]
      rw [hself]
      exact hsame q (mem_range.mp hq)
    exact heq ▸ hi

/-- The used positions stay if used ones go to used ones, and where one goes that has a place of its
own, it stays. The others keep their order, so they cannot change places among themselves. -/
theorem eq_of_used {used : Nat → Prop} {owned : Nat → Prop}
    (hused : ∀ i p, positions[i]? = some p → (used i ↔ used p))
    (howned : ∀ i p, positions[i]? = some p → used i → owned p → p = i)
    (hother : ∀ p q, ¬ owned p → ¬ owned q → place p = place q) (hi : positions[i]? = some p) (hui : used i) :
    p = i := by
  induction i using Nat.strongRecOn generalizing p with
  | ind i ih =>
    by_cases hp : owned p
    · exact howned i p hi hui hp
    obtain ⟨j, hj⟩ := h.exists_getElem? (p := i) (h.length_eq ▸ (List.getElem?_eq_some_iff.mp hi).1)
    have huj : used j := (hused j i hj).mpr hui
    by_cases hown : owned i
    · obtain rfl := howned j i hj huj hown
      exact Option.some.inj (hi.symm.trans hj)
    -- neither `p` nor `i` has a place of its own; what is smaller stays by induction, so `p` is not
    -- smaller than `i`, and if it is greater, `i` and `p` have changed their order
    rcases Nat.lt_trichotomy p i with hlt | heq | hgt
    · obtain ⟨r, hr⟩ := h.exists_getElem?_of_lt (h.lt_of_getElem? hi)
      obtain rfl := ih p hlt hr ((hused i p hi).mp hui)
      exact h.inj hr hi
    · exact heq
    · rcases Nat.lt_trichotomy j i with hlt | rfl | hgt'
      · exact absurd (ih j hlt hj huj) (by omega)
      · exact Option.some.inj (hi.symm.trans hj)
      · have hbefore := h.before hi hj hgt'
        have hsame := hother p i hp hown
        unfold Before at hbefore
        omega

end Sorts

end Flowscript.Workflow
