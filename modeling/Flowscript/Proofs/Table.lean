import Flowscript.Table
import Flowscript.Value.Access
import Mathlib.Data.List.Basic
import Mathlib.Data.List.Induction
import Mathlib.Data.List.Nodup

/-!
# Lemmas about tables

What is found in a table after an entry is set, and how a new key extends it. The entries of an
object are a table whose keys are texts, with operations of their own.
-/

namespace Flowscript.Table

open List Option

variable {κ α : Type} [BEq κ] {key : κ} {a : α} {table : List (κ × α)}

@[simp]
theorem find?_nil (key : κ) : find? key ([] : List (κ × α)) = none := rfl

theorem find?_append (key : κ) (left right : List (κ × α)) :
    find? key (left ++ right) = (find? key left).or (find? key right) := by
  induction left with
  | nil => simp
  | cons entry rest ih =>
    obtain ⟨k, b⟩ := entry
    by_cases hk : (k == key) = true
    · simp [find?, hk]
    · simp [find?, hk, ih]

theorem exists_of_find? (h : find? key table = some a) :
    ∃ k, (k, a) ∈ table ∧ (k == key) = true := by
  induction table with
  | nil => cases h
  | cons entry rest ih =>
    obtain ⟨k, b⟩ := entry
    by_cases hk : (k == key) = true
    · simp only [find?, hk, if_true, some.injEq] at h
      exact ⟨k, h ▸ mem_cons_self, hk⟩
    · simp only [find?, hk, Bool.false_eq_true, if_false] at h
      obtain ⟨k', hmem, hk'⟩ := ih h
      exact ⟨k', mem_cons_of_mem _ hmem, hk'⟩

theorem mem_put {entry : κ × α} (h : entry ∈ put key a table) : entry ∈ table ∨ entry.2 = a := by
  induction table with
  | nil =>
    simp only [put, mem_singleton] at h
    exact .inr (h ▸ rfl)
  | cons first rest ih =>
    obtain ⟨k, b⟩ := first
    by_cases hk : (k == key) = true
    · simp only [put, hk, if_true, mem_cons] at h
      obtain rfl | h := h
      · exact .inr rfl
      · exact .inl (mem_cons_of_mem _ h)
    · simp only [put, hk, if_false, mem_cons, Bool.false_eq_true] at h
      obtain rfl | h := h
      · exact .inl mem_cons_self
      · exact (ih h).imp_left (mem_cons_of_mem _)

theorem map_fst_put (key : κ) (a : α) (table : List (κ × α)) :
    (put key a table).map Prod.fst = table.map Prod.fst ∨
      (∀ k ∈ table.map Prod.fst, (k == key) = false) ∧
        (put key a table).map Prod.fst = table.map Prod.fst ++ [key] := by
  induction table with
  | nil => exact .inr ⟨by simp, rfl⟩
  | cons first rest ih =>
    obtain ⟨k, b⟩ := first
    by_cases hk : (k == key) = true
    · exact .inl (by simp [put, hk])
    · obtain hsame | ⟨hnew, hadd⟩ := ih
      · exact .inl (by simp [put, hk, hsame])
      · refine .inr ⟨?_, by simp [put, hk, hadd]⟩
        simp only [map_cons, forall_mem_cons]
        exact ⟨by simpa using hk, hnew⟩

theorem nodup_snd_put (ha : a ∉ table.map Prod.snd) (h : (table.map Prod.snd).Nodup) :
    ((put key a table).map Prod.snd).Nodup := by
  induction table with
  | nil => simp [put]
  | cons first rest ih =>
    obtain ⟨k, b⟩ := first
    simp only [map_cons, mem_cons, not_or] at ha
    simp only [map_cons, nodup_cons] at h
    by_cases hk : (k == key) = true
    · simp only [put, hk, if_true, map_cons, nodup_cons]
      exact ⟨ha.2, h.2⟩
    · simp only [put, hk, if_false, map_cons, nodup_cons, Bool.false_eq_true]
      refine ⟨fun hmem => ?_, ih ha.2 h.2⟩
      obtain ⟨entry, hentry, hb⟩ := mem_map.1 hmem
      obtain hold | hnew := mem_put hentry
      · exact h.1 (mem_map.2 ⟨entry, hold, hb⟩)
      · exact ha.1 (hnew.symm.trans hb)

theorem put_eq_self (h : find? key table = some a) : put key a table = table := by
  induction table with
  | nil => cases h
  | cons entry rest ih =>
    obtain ⟨k, b⟩ := entry
    by_cases hk : (k == key) = true
    · simp only [find?, if_pos hk, some.injEq] at h
      rw [put, if_pos hk, h]
    · simp only [find?, if_neg hk] at h
      rw [put, if_neg hk, ih h]

def putAll (entries table : List (κ × α)) : List (κ × α) :=
  entries.foldl (fun table entry => put entry.1 entry.2 table) table

theorem putAll_append_singleton (earlier table : List (κ × α)) (entry : κ × α) :
    putAll (earlier ++ [entry]) table = put entry.1 entry.2 (putAll earlier table) := by
  simp [putAll]

theorem mem_keys_putAll (entries : List (κ × α)) (h : key ∈ table.map Prod.fst) :
    key ∈ (putAll entries table).map Prod.fst := by
  induction entries generalizing table with
  | nil => exact h
  | cons entry rest ih =>
    refine ih ?_
    rcases map_fst_put entry.1 entry.2 table with hsame | ⟨-, hmore⟩
    · exact hsame ▸ h
    · exact hmore ▸ mem_append_left _ h

variable [LawfulBEq κ]

theorem find?_put [DecidableEq κ] (key other : κ) (a : α) (table : List (κ × α)) :
    find? other (put key a table) = if key = other then some a else find? other table := by
  induction table with
  | nil =>
    by_cases h : key = other
    · simp [put, find?, h]
    · simp [put, find?, h]
  | cons entry rest ih =>
    obtain ⟨k, b⟩ := entry
    by_cases hk : k = key
    · subst hk
      by_cases h : k = other
      · simp [put, find?, h]
      · simp [put, find?, h]
    · by_cases hko : k = other
      · subst hko
        have hne : key ≠ k := fun h => hk h.symm
        simp [put, find?, hk, hne]
      · simp [put, find?, hk, hko, ih]

theorem find?_put_self [DecidableEq κ] (key : κ) (a : α) (table : List (κ × α)) :
    find? key (put key a table) = some a := by
  simp [find?_put]

theorem find?_put_of_ne [DecidableEq κ] {other : κ} (h : key ≠ other) (a : α) (table : List (κ × α)) :
    find? other (put key a table) = find? other table := by
  simp [find?_put, h]

theorem mem_put_cases {entry : κ × α} (h : entry ∈ put key a table) : entry ∈ table ∨ entry = (key, a) := by
  induction table with
  | nil => exact .inr (mem_singleton.mp h)
  | cons first rest ih =>
    obtain ⟨k, b⟩ := first
    by_cases hk : k = key
    · subst hk
      simp only [put, beq_self_eq_true, if_true, mem_cons] at h
      exact h.symm.imp_left (mem_cons_of_mem _)
    · simp only [put, beq_iff_eq, hk, if_false, mem_cons] at h
      rcases h with rfl | h
      · exact .inl mem_cons_self
      · exact (ih h).imp_left (mem_cons_of_mem _)

theorem mem_of_find? (h : find? key table = some a) :
    (key, a) ∈ table := by
  induction table with
  | nil => simp at h
  | cons entry rest ih =>
    obtain ⟨k, b⟩ := entry
    by_cases hk : k = key
    · subst hk
      simp only [find?, beq_self_eq_true, if_true, some.injEq] at h
      simp [h]
    · simp only [find?, beq_iff_eq, hk, if_false] at h
      exact mem_cons_of_mem _ (ih h)

theorem find?_eq_none_iff :
    find? key table = none ↔ key ∉ table.map Prod.fst := by
  induction table with
  | nil => simp
  | cons entry rest ih =>
    obtain ⟨k, b⟩ := entry
    by_cases hk : k = key
    · simp [find?, hk]
    · have hne : key ≠ k := fun h => hk h.symm
      simp [find?, hk, ih, hne]

theorem find?_of_mem (hnodup : (table.map Prod.fst).Nodup) (h : (key, a) ∈ table) :
    find? key table = some a := by
  induction table with
  | nil => cases h
  | cons entry rest ih =>
    rw [map_cons, nodup_cons] at hnodup
    rcases mem_cons.mp h with rfl | hrest
    · simp [find?]
    · have hne : entry.1 ≠ key := by
        rintro rfl
        exact hnodup.1 (mem_map.mpr ⟨_, hrest, rfl⟩)
      simpa [find?, hne] using ih hnodup.2 hrest

theorem find?_update (key key' : κ) (f : α → α) (table : List (κ × α)) :
    find? key' (update key f table) =
      if key' == key then (find? key' table).map f else find? key' table := by
  induction table with
  | nil => simp [update]
  | cons entry rest ih =>
    obtain ⟨k, b⟩ := entry
    have hcons : update key f ((k, b) :: rest) =
        (if k == key then (k, f b) else (k, b)) :: update key f rest := rfl
    rw [hcons]
    by_cases hk : k = key
    · by_cases hk' : k = key'
      · simp [find?, ← hk, ← hk']
      · have hne : key' ≠ key := fun h => hk' (hk.trans h.symm)
        simp [find?, hk, hne.symm, hne, ih]
    · by_cases hk' : k = key'
      · have hne : key' ≠ key := fun h => hk (hk'.trans h)
        simp [find?, hk', hne]
      · simp [find?, hk, hk', ih]

theorem map_fst_update (key : κ) (f : α → α) (table : List (κ × α)) :
    (update key f table).map Prod.fst = table.map Prod.fst := by
  unfold update
  rw [List.map_map]
  refine List.map_congr_left fun entry _ => ?_
  obtain ⟨k, a⟩ := entry
  by_cases hk : k = key <;> simp [hk]

theorem put_put (key : κ) (a b : α) (table : List (κ × α)) :
    put key b (put key a table) = put key b table := by
  induction table with
  | nil => simp [put]
  | cons entry rest ih =>
    obtain ⟨k, c⟩ := entry
    by_cases hk : k = key
    · simp [put, hk]
    · simp [put, hk, ih]

theorem put_comm {key' : κ} (hne : key ≠ key') (a b : α) (hkey : key ∈ table.map Prod.fst) :
    put key' b (put key a table) = put key a (put key' b table) := by
  induction table with
  | nil => cases hkey
  | cons entry rest ih =>
    obtain ⟨k, c⟩ := entry
    by_cases hk : k = key
    · subst hk
      simp [put, hne]
    · have hrest : key ∈ rest.map Prod.fst := by
        rcases mem_cons.mp hkey with heq | hrest
        · exact absurd heq.symm hk
        · exact hrest
      by_cases hk' : k = key'
      · subst hk'
        simp [put, hk]
      · simp [put, hk, hk', ih hrest]

theorem putAll_put_of_mem [DecidableEq κ] {entries : List (κ × α)} (hentries : key ∈ entries.map Prod.fst)
    (htable : key ∈ table.map Prod.fst) (a : α) :
    putAll entries (put key a table) = putAll entries table := by
  induction entries generalizing table with
  | nil => cases hentries
  | cons entry rest ih =>
    obtain ⟨k, b⟩ := entry
    change putAll rest (put k b (put key a table)) = putAll rest (put k b table)
    by_cases hk : k = key
    · rw [hk, put_put]
    · have hrest : key ∈ rest.map Prod.fst := by
        rcases mem_cons.mp hentries with heq | hrest
        · exact absurd heq.symm hk
        · exact hrest
      rw [put_comm (Ne.symm hk) a b htable]
      exact ih hrest (mem_keys_putAll [(k, b)] htable)

theorem find?_putAll_of_not_mem [DecidableEq κ] {entries : List (κ × α)} (h : key ∉ entries.map Prod.fst)
    (table : List (κ × α)) :
    find? key (putAll entries table) = find? key table := by
  induction entries generalizing table with
  | nil => rfl
  | cons entry rest ih =>
    rw [map_cons, mem_cons, not_or] at h
    exact (ih h.2 _).trans (find?_put_of_ne (Ne.symm h.1) _ _)

theorem putAll_putAll [DecidableEq κ] (entries table : List (κ × α)) :
    putAll entries (putAll entries table) = putAll entries table := by
  induction entries generalizing table with
  | nil => rfl
  | cons entry rest ih =>
    obtain ⟨k, a⟩ := entry
    change putAll rest (put k a (putAll rest (put k a table))) = putAll rest (put k a table)
    have hk : find? k (put k a table) = some a := find?_put_self k a table
    by_cases hrest : k ∈ rest.map Prod.fst
    · have hmem : k ∈ (put k a table).map Prod.fst :=
        mem_map.mpr ⟨(k, a), mem_of_find? hk, rfl⟩
      rw [putAll_put_of_mem hrest (mem_keys_putAll rest hmem) a, ih]
    · rw [put_eq_self ((find?_putAll_of_not_mem hrest _).trans hk), ih]

theorem put_eq_append (h : key ∉ table.map Prod.fst) (a : α) :
    put key a table = table ++ [(key, a)] := by
  induction table with
  | nil => rfl
  | cons entry rest ih =>
    obtain ⟨k, b⟩ := entry
    simp only [map_cons, mem_cons, not_or] at h
    have hk : k ≠ key := fun he => h.1 he.symm
    simp [put, hk, ih h.2]

/-- Each key once, in the place where it came first, with what it was set to last. -/
def lastEntries (entries : List (κ × α)) : List (κ × α) :=
  (entries.map Prod.fst).eraseDups.filterMap fun key =>
    (find? key entries.reverse).map (Prod.mk key)

theorem map_fst_put_of_mem (h : key ∈ table.map Prod.fst) (a : α) :
    (put key a table).map Prod.fst = table.map Prod.fst := by
  rcases map_fst_put key a table with hsame | ⟨hnew, -⟩
  · exact hsame
  · exact absurd (hnew key h) (by simp)

theorem map_fst_putAll_nil (entries : List (κ × α)) :
    (putAll entries []).map Prod.fst = (entries.map Prod.fst).eraseDups := by
  induction entries using List.reverseRecOn with
  | nil => rfl
  | append_singleton earlier entry ih =>
    rw [putAll_append_singleton, map_append, eraseDups_append, ← ih]
    by_cases hkey : entry.1 ∈ earlier.map Prod.fst
    · have hmem : entry.1 ∈ (putAll earlier []).map Prod.fst := by
        rw [ih]
        exact mem_eraseDups.mpr hkey
      rw [map_fst_put_of_mem hmem]
      simp [List.removeAll, hkey]
    · have hmem : entry.1 ∉ (putAll earlier []).map Prod.fst := by
        rw [ih]
        exact fun h => hkey (mem_eraseDups.mp h)
      rw [put_eq_append hmem, map_append]
      simp [List.removeAll, hkey, eraseDups_cons]

theorem find?_putAll_nil [DecidableEq κ] (entries : List (κ × α)) (key : κ) :
    find? key (putAll entries []) = find? key entries.reverse := by
  induction entries using List.reverseRecOn with
  | nil => rfl
  | append_singleton earlier entry ih =>
    rw [putAll_append_singleton, find?_put, ih, reverse_append]
    by_cases hkey : entry.1 = key <;> simp [find?, hkey]

theorem nodup_map_fst_put (key : κ) (a : α) (h : (table.map Prod.fst).Nodup) :
    ((put key a table).map Prod.fst).Nodup := by
  rcases map_fst_put key a table with hsame | ⟨hnew, hadd⟩
  · exact hsame ▸ h
  · rw [hadd]
    refine h.append (nodup_singleton key) fun k hk hkey => ?_
    obtain rfl := mem_singleton.mp hkey
    simpa using hnew k hk

theorem nodup_map_fst_putAll (entries table : List (κ × α))
    (h : (table.map Prod.fst).Nodup) : ((putAll entries table).map Prod.fst).Nodup := by
  induction entries generalizing table with
  | nil => exact h
  | cons entry rest ih => exact ih _ (nodup_map_fst_put entry.1 entry.2 h)

theorem filterMap_find? (h : (table.map Prod.fst).Nodup) :
    ((table.map Prod.fst).filterMap fun key => (find? key table).map (Prod.mk key)) = table := by
  have hfind : ∀ entry ∈ table, (find? entry.1 table).map (Prod.mk entry.1) = some entry := by
    intro entry hentry
    rw [find?_of_mem h hentry]
    rfl
  rw [filterMap_map]
  calc table.filterMap ((fun key => (find? key table).map (Prod.mk key)) ∘ Prod.fst)
      = table.filterMap some := filterMap_congr hfind
    _ = table := filterMap_some

theorem putAll_nil [DecidableEq κ] (entries : List (κ × α)) : putAll entries [] = lastEntries entries := by
  have h := filterMap_find? (nodup_map_fst_putAll entries [] nodup_nil)
  rw [map_fst_putAll_nil] at h
  simp only [find?_putAll_nil] at h
  exact h.symm

theorem lastEntries_append_singleton [DecidableEq κ] (earlier : List (κ × α)) (entry : κ × α) :
    lastEntries (earlier ++ [entry]) = put entry.1 entry.2 (lastEntries earlier) := by
  rw [← putAll_nil, ← putAll_nil, putAll_append_singleton]

theorem mem_of_mem_lastEntries {entries : List (κ × α)} {entry : κ × α}
    (h : entry ∈ lastEntries entries) : entry ∈ entries := by
  obtain ⟨key, -, hkey⟩ := mem_filterMap.mp h
  obtain ⟨a, hfind, rfl⟩ := map_eq_some_iff.mp hkey
  exact mem_reverse.mp (mem_of_find? hfind)

end Flowscript.Table

namespace Flowscript.Value

variable {α : Type} {table : List (Value × α)} {entries left right : List (String × Value)} {key : String}
  {v : Value}

@[simp]
theorem str_beq_str (s t : String) : (str s == str t) = (s == t) := by
  simp [BEq.beq, same, sameLeaf, number?, text?]

theorem str_beq (s : String) (v : Value) : (str s == v) = (v.text? == some s) := by
  have hsame : (str s == v) = sameLeaf (str s) v := by simp [BEq.beq, same]
  rw [hsame]
  unfold sameLeaf
  cases hv : v.text? with
  | none => cases v <;> simp_all [number?, text?]
  | some t =>
    simp only [number?, text?]
    by_cases h : s = t <;> simp [h, eq_comm]

theorem find?_of_texts (h : ∀ key ∈ table.map Prod.fst, ∃ p, key = str p) (v : Value) :
    Table.find? v table = v.text?.bind fun p => Table.find? (str p) table := by
  induction table with
  | nil => cases v.text? <;> rfl
  | cons entry rest ih =>
    obtain ⟨k, a⟩ := entry
    simp only [List.map_cons, List.forall_mem_cons] at h
    obtain ⟨⟨q, rfl⟩, hrest⟩ := h
    rw [Table.find?, str_beq, ih hrest]
    cases hv : v.text? with
    | none => simp
    | some p =>
      by_cases hpq : p = q
      · simp [Table.find?, hpq]
      · have hqp : q ≠ p := Ne.symm hpq
        simp [Table.find?, hpq, hqp]

theorem find?_of_mem_texts {p : String} {a : α} (h : ∀ key ∈ table.map Prod.fst, ∃ p, key = str p)
    (hnodup : (table.map Prod.fst).Nodup) (hmem : (str p, a) ∈ table) :
    Table.find? (str p) table = some a := by
  induction table with
  | nil => cases hmem
  | cons entry rest ih =>
    obtain ⟨k, b⟩ := entry
    simp only [List.map_cons, List.forall_mem_cons, List.nodup_cons] at h hnodup
    obtain ⟨⟨q, rfl⟩, hrest⟩ := h
    obtain heq | hmem := List.mem_cons.1 hmem
    · obtain ⟨hpq, rfl⟩ := Prod.mk.inj heq
      simp [Table.find?, Value.str.inj hpq]
    · have hne : q ≠ p := by
        rintro rfl
        exact hnodup.1 (List.mem_map_of_mem hmem)
      simp [Table.find?, hne, ih hrest hnodup.2 hmem]

theorem mem_of_find?_texts {p : String} {a : α} (h : ∀ key ∈ table.map Prod.fst, ∃ p, key = str p)
    (hfind : Table.find? (str p) table = some a) :
    (str p, a) ∈ table := by
  obtain ⟨k, hmem, hk⟩ := Table.exists_of_find? hfind
  obtain ⟨q, rfl⟩ := h k (List.mem_map_of_mem hmem)
  rw [str_beq_str, beq_iff_eq] at hk
  exact hk ▸ hmem

theorem sameLeaf_str (v : Value) (s : String) : sameLeaf v (str s) = (v.text? == some s) := by
  unfold sameLeaf
  split
  case h_1 x y hx hy => simp [number?] at hy
  case h_2 =>
    split
    case h_1 a b ha hb =>
      obtain rfl : s = b := by simpa [text?] using hb
      simp [ha]
    case h_2 hnone =>
      have hv : v.text? = none := by
        cases h : v.text? with
        | none => rfl
        | some a => exact (hnone a s h rfl).elim
      split <;> simp_all

theorem eq_of_same_str : ∀ (v : Value) {s t : String}, same v (str s) = true →
    same v (str t) = true → s = t
  | wrapped v _, s, t, hs, ht => by
    simp only [same] at hs ht
    exact eq_of_same_str v hs ht
  | null, s, t, hs, ht | bool _, s, t, hs, ht | int _, s, t, hs, ht | float _, s, t, hs, ht
  | str _, s, t, hs, ht | list _, s, t, hs, ht | tuple _, s, t, hs, ht | dict _, s, t, hs, ht
  | record _, s, t, hs, ht | path _, s, t, hs, ht | classRef .., s, t, hs, ht
  | member .., s, t, hs, ht | image .., s, t, hs, ht | output .., s, t, hs, ht
  | task .., s, t, hs, ht | result .., s, t, hs, ht | workflow _, s, t, hs, ht
  | node _, s, t, hs, ht | object _, s, t, hs, ht => by
    simp only [same, sameLeaf_str, beq_iff_eq] at hs ht
    exact Option.some.inj (hs.symm.trans ht)

theorem find?_put_str (s t : String) (a : α) (table : List (Value × α)) :
    Table.find? (str t) (Table.put (str s) a table) =
      if s = t then some a else Table.find? (str t) table := by
  induction table with
  | nil =>
    by_cases h : s = t
    · simp [Table.put, Table.find?, h]
    · simp [Table.put, Table.find?, h]
  | cons entry rest ih =>
    obtain ⟨k, b⟩ := entry
    by_cases hs : (k == str s) = true
    · by_cases h : s = t
      · subst h
        simp [Table.put, Table.find?, hs]
      · have ht : ¬(k == str t) = true := fun ht => h (eq_of_same_str k hs ht)
        simp [Table.put, Table.find?, hs, ht, h]
    · by_cases ht : (k == str t) = true
      · have h : s ≠ t := fun h => hs (h ▸ ht)
        simp [Table.put, Table.find?, hs, ht, h]
      · simp [Table.put, Table.find?, hs, ht, ih]

theorem put_eq_tablePut (key : String) (v : Value) (entries : List (String × Value)) :
    put key v entries = Table.put key v entries := by
  induction entries with
  | nil => rfl
  | cons entry rest ih => simp [put, Table.put, ih]

theorem mem_merge {entry : String × Value} (h : entry ∈ merge left right) :
    entry ∈ left ∨ entry ∈ right := by
  induction right generalizing left with
  | nil => exact .inl h
  | cons first rest ih =>
    have hrest : entry ∈ merge (put first.1 first.2 left) rest := h
    rcases ih hrest with hput | hrest
    · rw [put_eq_tablePut] at hput
      rcases Table.mem_put_cases hput with hold | rfl
      · exact .inl hold
      · exact .inr List.mem_cons_self
    · exact .inr (List.mem_cons_of_mem _ hrest)

theorem lookup_eq_find? (key : String) (entries : List (String × Value)) :
    lookup key entries = Table.find? key entries := by
  induction entries with
  | nil => rfl
  | cons entry rest ih => simp [lookup, Table.find?, ih]

theorem lookup_put (key other : String) (v : Value) (entries : List (String × Value)) :
    lookup other (put key v entries) = if key = other then some v else lookup other entries := by
  rw [lookup_eq_find?, lookup_eq_find?, put_eq_tablePut, Table.find?_put]

theorem lookup_eq_none_iff :
    lookup key entries = none ↔ key ∉ entries.map Prod.fst := by
  rw [lookup_eq_find?, Table.find?_eq_none_iff]

theorem nodup_keys_put (key : String) (v : Value) (h : (entries.map Prod.fst).Nodup) :
    ((put key v entries).map Prod.fst).Nodup := by
  rw [put_eq_tablePut]
  exact Table.nodup_map_fst_put key v h

theorem remove_put (key : String) (v : Value) (entries : List (String × Value)) :
    remove key (put key v entries) = remove key entries := by
  induction entries with
  | nil => simp [put, remove]
  | cons entry rest ih =>
    obtain ⟨k, w⟩ := entry
    unfold remove at ih ⊢
    by_cases hk : k = key
    · simp [put, hk]
    · simp [put, hk, ih]

theorem remove_of_not_mem (h : key ∉ entries.map Prod.fst) : remove key entries = entries := by
  refine List.filter_eq_self.mpr fun entry hentry => bne_iff_ne.mpr ?_
  rintro rfl
  exact h (List.mem_map_of_mem hentry)

/-! ### Merged entries -/

theorem merge_nil (entries : List (String × Value)) : merge entries [] = entries := rfl

theorem merge_append (entries left right : List (String × Value)) :
    merge entries (left ++ right) = merge (merge entries left) right := by
  simp [merge]

theorem merge_eq_append (h : ((left ++ right).map Prod.fst).Nodup) : merge left right = left ++ right := by
  induction right generalizing left with
  | nil => rw [merge_nil, List.append_nil]
  | cons entry rest ih =>
    rw [List.append_cons] at h ⊢
    have hnew : entry.1 ∉ left.map Prod.fst := by
      intro hmem
      rw [List.append_assoc, List.map_append, List.nodup_append] at h
      exact h.2.2 _ hmem _ (List.mem_map_of_mem List.mem_cons_self) rfl
    have hput : merge left (entry :: rest) = merge (left ++ [entry]) rest := by
      rw [← Table.put_eq_append hnew, ← put_eq_tablePut]
      rfl
    rw [hput, ih h]

theorem nodup_keys_merge (right : List (String × Value)) (h : (left.map Prod.fst).Nodup) :
    ((merge left right).map Prod.fst).Nodup := by
  induction right generalizing left with
  | nil => exact h
  | cons entry rest ih => exact ih (nodup_keys_put entry.1 entry.2 h)

theorem lookup_merge (key : String) (left : List (String × Value)) (h : (right.map Prod.fst).Nodup) :
    lookup key (merge left right) = (lookup key right).or (lookup key left) := by
  induction right generalizing left with
  | nil => rfl
  | cons entry rest ih =>
    obtain ⟨k, v⟩ := entry
    rw [List.map_cons, List.nodup_cons] at h
    have hmerge : merge left ((k, v) :: rest) = merge (put k v left) rest := rfl
    rw [hmerge, ih _ h.2, lookup_put]
    by_cases hk : k = key
    · subst hk
      simp [lookup, lookup_eq_none_iff.mpr h.1]
    · simp [lookup, hk]

theorem lookup_merge_of_forall (hmem : (key, v) ∈ right) (hall : ∀ w, (key, w) ∈ right → w = v) :
    lookup key (merge left right) = some v := by
  -- the claim is about the last entry of the key, so the others are taken off from the front
  induction right using List.reverseRecOn with
  | nil => cases hmem
  | append_singleton rest entry ih =>
    have hmerge : merge left (rest ++ [entry]) = put entry.1 entry.2 (merge left rest) := by
      rw [merge_append]
      rfl
    rw [hmerge, lookup_put]
    by_cases hkey : entry.1 = key
    · rw [if_pos hkey, hall entry.2 (by simp [← hkey])]
    · rw [if_neg hkey]
      refine ih ?_ fun w hw => hall w (List.mem_append_left _ hw)
      rcases List.mem_append.mp hmem with hrest | hlast
      · exact hrest
      · exact absurd (congrArg Prod.fst (List.mem_singleton.mp hlast)).symm hkey

theorem lookup_merge_of_not_mem (h : key ∉ right.map Prod.fst) :
    lookup key (merge left right) = lookup key left := by
  induction right generalizing left with
  | nil => rfl
  | cons entry rest ih =>
    rw [List.map_cons, List.mem_cons, not_or] at h
    have hmerge : merge left (entry :: rest) = merge (put entry.1 entry.2 left) rest := rfl
    rw [hmerge, ih h.2, lookup_put, if_neg (Ne.symm h.1)]

theorem item_dict_str (h : lookup key entries = some v) : (dict entries).item (str key) = .ok v := by
  simp [item, bare, hashable, text?, h]

theorem item_list_int {items : List Value} {i : Nat} (h : items[i]? = some v) :
    (list items).item (int i) = .ok v := by
  have hlt : i < items.length := (getElem?_eq_some_iff.mp h).1
  have hposition : position? items.length i = some i := by simp [position?, hlt]
  change nth items i = _
  simp only [nth, hposition, h]

theorem intText_natCast (n : Nat) : intText n = String.ofList (Nat.toDigits 10 n) := by
  simp [intText]

theorem intText_injective {m n : Nat} (h : intText m = intText n) : m = n := by
  rw [intText_natCast, intText_natCast] at h
  have hd : Nat.toDigits 10 m = Nat.toDigits 10 n := String.ofList_injective h
  have hn := congrArg (fun ds => Nat.ofDigitChars 10 ds 0) hd
  simpa using hn

theorem isDigit_of_mem_intText {n : Nat} {c : Char} (h : c ∈ (intText n).toList) :
    c.isDigit := by
  rw [intText_natCast, String.toList_ofList] at h
  exact Nat.isDigit_of_mem_toDigits (by decide) (by decide) h

end Flowscript.Value
