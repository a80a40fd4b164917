import Flowscript.Registry.Basic
import Flowscript.Proofs.Table
import Mathlib.Logic.Relation
import Mathlib.Data.List.Perm.Subperm

/-!
# Names in the registry

A raw name is bound under the first of its candidates that is free when it is asked for: its class
identifier with some underscores behind it. The bindings change in three ways only: a free candidate
is claimed, what was claimed is bound, and an enumeration is put under an identifier that is kept for
it. None of them breaks the candidates of a name, so that a name that is bound stays bound under the
same identifier and is found there.
-/

namespace Flowscript

open List

namespace Registry

variable {vars : List (String × TypeRef)} {id raw : String} {n : Nat}

/-- The identifier that is tried for a name after so many others. -/
def candidate (raw : String) (n : Nat) : String :=
  Identifier.classId raw ++ String.ofList (List.replicate n '_')

theorem candidate_zero (raw : String) : candidate raw 0 = Identifier.classId raw := by
  apply String.toList_injective
  simp [candidate]

theorem candidate_succ (raw : String) (n : Nat) : candidate raw n ++ "_" = candidate raw (n + 1) := by
  apply String.toList_injective
  simp [candidate, replicate_succ']

theorem candidate_injective (raw : String) : Function.Injective (candidate raw) := by
  intro m n h
  have hlength := congrArg String.length h
  simpa [candidate] using hlength

/-- The candidates before the given one are taken by others. -/
def Passed (vars : List (String × TypeRef)) (raw : String) (n : Nat) : Prop :=
  ∀ m < n, ∃ t, Table.find? (candidate raw m) vars = some t ∧ t.raw? ≠ some raw

theorem Passed.length_le (h : Passed vars raw n) : n ≤ vars.length := by
  have hnodup : ((List.range n).map (candidate raw)).Nodup :=
    nodup_range.map (candidate_injective raw)
  have hsubset : (List.range n).map (candidate raw) ⊆ vars.map Prod.fst := by
    intro id hid
    obtain ⟨m, hm, rfl⟩ := mem_map.mp hid
    obtain ⟨t, ht, -⟩ := h m (mem_range.mp hm)
    exact mem_map.mpr ⟨_, Table.mem_of_find? ht, rfl⟩
  simpa using (subperm_of_subset hnodup hsubset).length_le

/-- A search for the name does not pass this candidate. -/
def Stops (vars : List (String × TypeRef)) (raw : String) (n : Nat) : Prop :=
  ∀ t, Table.find? (candidate raw n) vars = some t → t.raw? = some raw

theorem Passed.le {m : Nat} (h : Passed vars raw n) (hstops : Stops vars raw m) : n ≤ m := by
  apply Nat.le_of_not_lt
  intro hlt
  obtain ⟨t, ht, hne⟩ := h m hlt
  exact hne (hstops t ht)

/-- What a search finds: what is registered for the name, or a free candidate. -/
inductive Found (vars : List (String × TypeRef)) (raw : String) : TypeRef ⊕ String → Prop where
  | bound {n : Nat} {t : TypeRef} (hpassed : Passed vars raw n)
      (h : Table.find? (candidate raw n) vars = some t) (ht : t.raw? = some raw) :
    Found vars raw (.inl t)
  | free {n : Nat} (hpassed : Passed vars raw n) (h : Table.find? (candidate raw n) vars = none) :
    Found vars raw (.inr (candidate raw n))

theorem found_searchId (hpassed : Passed vars raw n) {fuel : Nat} (hfuel : vars.length < n + fuel) :
    Found vars raw (searchId vars raw fuel (candidate raw n)) := by
  induction fuel generalizing n with
  | zero =>
    -- there are no more candidates taken than there are bindings
    have := hpassed.length_le
    omega
  | succ fuel ih =>
    rw [searchId]
    split
    · next h => exact .free hpassed h
    · next t h =>
      split
      · next ht => exact .bound hpassed h (eq_of_beq ht)
      · next ht =>
        rw [candidate_succ]
        apply ih _ (by omega)
        intro m hm
        rcases Nat.lt_succ_iff_lt_or_eq.mp hm with hlt | rfl
        · exact hpassed m hlt
        · exact ⟨t, h, fun heq => ht (beq_of_eq heq)⟩

theorem resolve_cases (r : Registry) (raw : String) : Found r.vars raw (r.resolve raw) := by
  rw [resolve, ← candidate_zero]
  exact found_searchId (fun m hm => absurd hm (Nat.not_lt_zero m)) (by omega)

theorem of_resolve_inr {r : Registry} (h : r.resolve raw = .inr id) :
    ∃ n, id = candidate raw n ∧ Passed r.vars raw n ∧ Table.find? id r.vars = none := by
  have hfound := r.resolve_cases raw
  -- with the candidate in its place, the cases would compare texts by computing them
  generalize r.resolve raw = found at h hfound
  cases hfound with
  | bound => cases h
  | @free n hpassed hfree =>
    obtain rfl := Sum.inr.inj h
    exact ⟨n, rfl, hpassed, hfree⟩

def Binds (r : Registry) (raw id : String) : Prop :=
  ∃ t, Table.find? id r.vars = some t ∧ t.raw? = some raw

inductive Change (r : Registry) : Registry → Prop where
  | aside {r' : Registry} (hvars : r'.vars = r.vars) (himports : r'.imports = r.imports) : Change r r'
  | claim {raw id : String} (h : r.resolve raw = .inr id) : Change r (r.setVar id (.claimed id raw))
  | bind {raw id : String} {t : TypeRef} (h : r.Binds raw id) (ht : t.raw? = some raw) :
    Change r (r.setVar id t)
  | share {id : String} {e : Enumeration} (h : id ∈ sharedInputs.map fun entry => entry.2.2) :
    Change r (r.setVar id (.enumeration e))

/-- A sequence of changes. -/
def Evolves : Registry → Registry → Prop := Relation.ReflTransGen Change

/-- Names are bound under their candidates, with no gap before, and some identifiers are kept for
enumerations. -/
structure Sound (r : Registry) (held : List String) : Prop where
  chained : ∀ raw id, r.Binds raw id → ∃ n, id = candidate raw n ∧ Passed r.vars raw n
  kept : ∀ id ∈ held, ∃ t, Table.find? id r.vars = some t ∧ t.raw? = none
  shared : ∀ entry ∈ sharedInputs, entry.2.2 ∈ held
  imports : r.imports = none

variable {r r' : Registry} {held : List String}

theorem find?_setVar (r : Registry) (id other : String) (t : TypeRef) :
    Table.find? other (r.setVar id t).vars = if id = other then some t else Table.find? other r.vars :=
  Table.find?_put id other t r.vars

theorem Binds.unique {raw' : String} (h : r.Binds raw id) (h' : r.Binds raw' id) : raw = raw' := by
  obtain ⟨t, ht, hraw⟩ := h
  obtain ⟨t', ht', hraw'⟩ := h'
  rw [ht] at ht'
  cases ht'
  exact Option.some.inj (hraw.symm.trans hraw')

theorem stops_of_binds (h : r.Binds raw (candidate raw n)) :
    Stops r.vars raw n := by
  obtain ⟨t, ht, hraw⟩ := h
  intro u hu
  rw [ht] at hu
  cases hu
  exact hraw

namespace Sound

variable {id raw : String} {t : TypeRef}

theorem id_unique (hr : r.Sound held) {id' : String} (h : r.Binds raw id) (h' : r.Binds raw id') :
    id = id' := by
  obtain ⟨n, rfl, hpassed⟩ := hr.chained raw id h
  obtain ⟨m, rfl, hpassed'⟩ := hr.chained raw id' h'
  rw [Nat.le_antisymm (hpassed.le (stops_of_binds h')) (hpassed'.le (stops_of_binds h))]

theorem resolve_of_binds (hr : r.Sound held) (h : r.Binds raw id) :
    ∃ t, r.resolve raw = .inl t ∧ Table.find? id r.vars = some t ∧ t.raw? = some raw := by
  obtain ⟨n, rfl, hpassed⟩ := hr.chained raw id h
  have hstops := stops_of_binds h
  obtain ⟨t, ht, hraw⟩ := h
  have hfound := r.resolve_cases raw
  generalize r.resolve raw = found at hfound
  cases hfound with
  | @bound m t' hpassed' ht' hraw' =>
    have hle : m ≤ n := hpassed'.le hstops
    have hge : n ≤ m := hpassed.le (stops_of_binds ⟨t', ht', hraw'⟩)
    obtain rfl := Nat.le_antisymm hle hge
    rw [ht] at ht'
    cases ht'
    exact ⟨t, rfl, ht, hraw⟩
  | @free m hpassed' hfree =>
    have hle : m ≤ n := hpassed'.le hstops
    have hge : n ≤ m := hpassed.le fun u hu => by rw [hfree] at hu; cases hu
    obtain rfl := Nat.le_antisymm hle hge
    rw [hfree] at ht
    cases ht

theorem not_mem_kept (hr : r.Sound held) (h : r.Binds raw id) : id ∉ held := by
  intro hid
  obtain ⟨t, ht, hraw⟩ := h
  obtain ⟨t', ht', hnone⟩ := hr.kept id hid
  rw [ht] at ht'
  cases ht'
  rw [hraw] at hnone
  cases hnone

theorem setVar_free (hr : r.Sound held) (hpassed : Passed r.vars raw n)
    (hfree : Table.find? (candidate raw n) r.vars = none) (ht : t.raw? = some raw) :
    (r.setVar (candidate raw n) t).Sound held := by
  have hkeeps {id : String} {u : TypeRef} (h : Table.find? id r.vars = some u) :
      Table.find? id (r.setVar (candidate raw n) t).vars = some u := by
    rw [find?_setVar, if_neg, h]
    rintro rfl
    rw [hfree] at h
    cases h
  have hpasses {raw' : String} {m : Nat} (h : Passed r.vars raw' m) :
      Passed (r.setVar (candidate raw n) t).vars raw' m := by
    intro k hk
    obtain ⟨u, hu, hne⟩ := h k hk
    exact ⟨u, hkeeps hu, hne⟩
  refine ⟨?_, ?_, hr.shared, hr.imports⟩
  · rintro raw' id ⟨u, hu, hraw⟩
    rw [find?_setVar] at hu
    split at hu
    · next hid =>
      cases hu
      rw [ht] at hraw
      cases hraw
      exact ⟨n, hid.symm, hpasses hpassed⟩
    · obtain ⟨m, hid, hm⟩ := hr.chained raw' id ⟨u, hu, hraw⟩
      exact ⟨m, hid, hpasses hm⟩
  · intro id hid
    obtain ⟨u, hu, hnone⟩ := hr.kept id hid
    exact ⟨u, hkeeps hu, hnone⟩

theorem setVar_same (hr : r.Sound held) {t' : TypeRef} (h : Table.find? id r.vars = some t)
    (hraw : t'.raw? = t.raw?) : (r.setVar id t').Sound held := by
  have hkeeps {other : String} {u : TypeRef} (hu : Table.find? other r.vars = some u) :
      ∃ u', Table.find? other (r.setVar id t').vars = some u' ∧ u'.raw? = u.raw? := by
    rw [find?_setVar]
    split
    · next hid =>
      subst hid
      rw [h] at hu
      cases hu
      exact ⟨t', rfl, hraw⟩
    · exact ⟨u, hu, rfl⟩
  refine ⟨?_, ?_, hr.shared, hr.imports⟩
  · rintro raw other ⟨u, hu, hname⟩
    have hbinds : r.Binds raw other := by
      rw [find?_setVar] at hu
      split at hu
      · next hid =>
        subst hid
        cases hu
        exact ⟨t, h, hraw.symm.trans hname⟩
      · exact ⟨u, hu, hname⟩
    obtain ⟨n, rfl, hpassed⟩ := hr.chained raw other hbinds
    refine ⟨n, rfl, fun m hm => ?_⟩
    obtain ⟨w, hw, hne⟩ := hpassed m hm
    obtain ⟨w', hw', hsame⟩ := hkeeps hw
    exact ⟨w', hw', hsame ▸ hne⟩
  · intro other hother
    obtain ⟨u, hu, hnone⟩ := hr.kept other hother
    obtain ⟨u', hu', hsame⟩ := hkeeps hu
    exact ⟨u', hu', hsame.trans hnone⟩

theorem setVar_unnamed (hr : r.Sound held) (id : String) (ht : t.raw? = none) :
    (r.setVar id t).Sound held := by
  refine ⟨?_, ?_, hr.shared, hr.imports⟩
  · rintro raw other ⟨u, hu, hraw⟩
    rw [find?_setVar] at hu
    split at hu
    · cases hu
      rw [ht] at hraw
      cases hraw
    · obtain ⟨n, hn, hpassed⟩ := hr.chained raw other ⟨u, hu, hraw⟩
      refine ⟨n, hn, fun m hm => ?_⟩
      rw [find?_setVar]
      split
      · exact ⟨t, rfl, by simp [ht]⟩
      · exact hpassed m hm
  · intro other hother
    rw [find?_setVar]
    split
    · exact ⟨t, rfl, ht⟩
    · exact hr.kept other hother

theorem find?_of_change (hr : r.Sound held) (h : r.Change r') (ht : Table.find? id r.vars = some t) :
    ∃ t', Table.find? id r'.vars = some t' ∧ t'.raw? = t.raw? := by
  cases h with
  | aside hvars _ => exact ⟨t, hvars ▸ ht, rfl⟩
  | @claim raw claimed hresolve =>
    obtain ⟨-, -, -, hfree⟩ := of_resolve_inr hresolve
    refine ⟨t, ?_, rfl⟩
    rw [find?_setVar, if_neg, ht]
    rintro rfl
    rw [hfree] at ht
    cases ht
  | @bind raw bound u hbinds hu =>
    rw [find?_setVar]
    split
    · next hid =>
      subst hid
      obtain ⟨u', hu', hraw⟩ := hbinds
      rw [ht] at hu'
      cases hu'
      exact ⟨u, rfl, hu.trans hraw.symm⟩
    · exact ⟨t, ht, rfl⟩
  | @share shared e hshared =>
    rw [find?_setVar]
    split
    · next hid =>
      subst hid
      obtain ⟨entry, hentry, hid⟩ := mem_map.mp hshared
      obtain ⟨u, hu, hnone⟩ := hr.kept _ (hid ▸ hr.shared entry hentry)
      rw [ht] at hu
      cases hu
      exact ⟨_, rfl, hnone.symm⟩
    · exact ⟨t, ht, rfl⟩

theorem of_change (hr : r.Sound held) (h : r.Change r') : r'.Sound held := by
  cases h with
  | aside hvars himports =>
    refine ⟨fun raw id hbinds => ?_, hvars ▸ hr.kept, hr.shared, himports.trans hr.imports⟩
    unfold Binds at hbinds
    rw [hvars] at hbinds ⊢
    exact hr.chained raw id hbinds
  | @claim raw id hresolve =>
    obtain ⟨n, rfl, hpassed, hfree⟩ := of_resolve_inr hresolve
    exact hr.setVar_free hpassed hfree rfl
  | bind hbinds ht =>
    obtain ⟨t, hfind, hraw⟩ := hbinds
    exact hr.setVar_same hfind (ht.trans hraw.symm)
  | share _ => exact hr.setVar_unnamed _ rfl

theorem of_evolves (hr : r.Sound held) (h : r.Evolves r') : r'.Sound held := by
  induction h with
  | refl => exact hr
  | tail _ hchange ih => exact ih.of_change hchange

end Sound

theorem Binds.of_evolves (hr : r.Sound held) (h : r.Evolves r') (hbinds : r.Binds raw id) :
    r'.Binds raw id := by
  induction h with
  | refl => exact hbinds
  | tail hevolves hchange ih =>
    obtain ⟨t, ht, hraw⟩ := ih
    obtain ⟨t', ht', hsame⟩ := (hr.of_evolves hevolves).find?_of_change hchange ht
    exact ⟨t', ht', hsame.trans hraw⟩

theorem Evolves.imports (h : r.Evolves r') :
    r'.imports = r.imports := by
  induction h with
  | refl => rfl
  | tail _ hchange ih =>
    cases hchange with
    | aside _ himports => exact himports.trans ih
    | claim _ => exact ih
    | bind _ _ => exact ih
    | share _ => exact ih

end Registry

end Flowscript
