import Flowscript.ModulePath

/-!
# The search along a module path

A name is cut at its last dot, over and over, until a module is found or nothing is left. What stands
before the last dot is the longest part of the name, and the parts of that are the others, so the
search passes over the longer parts first. This holds for every text, also one with dots side by
side or at its ends.
-/

namespace Flowscript.ModulePath

variable {α : Type} {find : String → Lookup α} {name part other last : String} {r s : Option α}

/-- A part of a name is some of its beginning, up to a dot. -/
def IsPart (name part : String) : Prop := part ≠ "" ∧ ∃ rest, name = part ++ "." ++ rest

def Finds (find : String → Lookup α) (name part : String) (a : α) : Prop :=
  IsPart name part ∧ find part = .found a

def FindsLongest (find : String → Lookup α) (name part : String) (a : α) : Prop :=
  Finds find name part a ∧ ∀ other b, Finds find name other b → other.length ≤ part.length

def IsAnswer (find : String → Lookup α) (name : String) : Option α → Prop
  | some a => ∃ part, FindsLongest find name part a
  | none => ∀ part a, ¬ Finds find name part a

/-- A search that ends, and what it ends with: what stands before the last dot is looked up, and if it
is not found, the search goes on with it. -/
inductive Search (find : String → Lookup α) : String → Option α → Prop
  | undotted {name : String} (h : '.' ∉ name.toList) : Search find name none
  | exhausted {last : String} (h : '.' ∉ last.toList) : Search find ("" ++ "." ++ last) none
  | hit {part last : String} {a : α} (h : '.' ∉ last.toList) (hpart : part ≠ "")
      (hfound : find part = .found a) : Search find (part ++ "." ++ last) (some a)
  | miss {part last : String} {r : Option α} (h : '.' ∉ last.toList) (hpart : part ≠ "")
      (hmissing : ∀ a, find part ≠ .found a) (hrest : Search find part r) :
    Search find (part ++ "." ++ last) r

def Lookup.caught : Lookup α → Lookup α
  | .failed => .nothing
  | lookup => lookup

/-! ## The last dot -/

theorem last_dot_cases (name : String) :
    '.' ∉ name.toList ∨ ∃ part last, '.' ∉ last.toList ∧ name = part ++ "." ++ last := by
  by_cases h : '.' ∈ name.toList
  · obtain ⟨after, before, hname, hafter⟩ := List.eq_append_cons_of_mem (List.mem_reverse.mpr h)
    refine .inr ⟨String.ofList before.reverse, String.ofList after.reverse, by simpa using hafter, ?_⟩
    apply String.toList_injective
    simpa using congrArg List.reverse hname
  · exact .inl h

theorem not_isPart_of_not_mem (h : '.' ∉ name.toList) : ¬ IsPart name part := by
  rintro ⟨-, rest, rfl⟩
  simp at h

/-- What stands before the last dot is a part, and its parts are the others. -/
theorem isPart_append_iff (h : '.' ∉ last.toList) :
    IsPart (part ++ "." ++ last) other ↔ other ≠ "" ∧ other = part ∨ IsPart part other := by
  constructor
  · rintro ⟨hne, rest, hrest⟩
    have hchars : part.toList ++ '.' :: last.toList = other.toList ++ '.' :: rest.toList := by
      simpa using congrArg String.toList hrest
    obtain ⟨gap, hother, hgap⟩ | ⟨gap, hpart, hgap⟩ := List.append_eq_append_iff.mp hchars
    · -- a longer part would leave a dot behind the last one
      cases gap with
      | nil => exact .inl ⟨hne, String.toList_injective (by simpa using hother)⟩
      | cons c gap => simp_all
    · cases gap with
      | nil => exact .inl ⟨hne, String.toList_injective (by simpa using hpart.symm)⟩
      | cons c gap =>
        refine .inr ⟨hne, String.ofList gap, String.toList_injective ?_⟩
        simp_all [eq_comm]
  · rintro (⟨hne, rfl⟩ | ⟨hne, rest, rfl⟩)
    · exact ⟨hne, last, rfl⟩
    · exact ⟨hne, rest ++ "." ++ last, by simp [String.append_assoc]⟩

theorem IsPart.length_lt (h : IsPart name part) : part.length < name.length := by
  obtain ⟨-, rest, rfl⟩ := h
  simp only [String.length_append, show ".".length = 1 from rfl]
  omega

theorem cuts_append (after before : List Char) (h : '.' ∉ after) :
    cuts (after ++ before) = cuts before := by
  induction after with
  | nil => rfl
  | cons c after ih =>
    simp only [List.mem_cons, not_or] at h
    simp [cuts, Ne.symm h.1, ih h.2]

theorem resolve_of_not_mem (h : '.' ∉ name.toList) : resolve find name = none := by
  have hcuts := cuts_append name.toList.reverse [] (by simpa using h)
  simp_all [resolve, cuts]

theorem resolve_append (h : '.' ∉ last.toList) : resolve find (part ++ "." ++ last) =
    (lookupAt find part.toList.reverse).or (resolve find part) := by
  have hcuts := cuts_append last.toList.reverse ('.' :: part.toList.reverse) (by simpa using h)
  cases hlookup : lookupAt find part.toList.reverse <;> simp_all [resolve, cuts]

/-! ## The end of a search -/

theorem search_resolve (find : String → Lookup α) (name : String) :
    Search find name (resolve find name) := by
  obtain h | ⟨part, last, h, rfl⟩ := last_dot_cases name
  · exact resolve_of_not_mem h ▸ .undotted h
  rw [resolve_append h]
  by_cases hpart : part = ""
  · subst hpart
    exact .exhausted h
  · have hshorter := ((isPart_append_iff h).mpr (.inl ⟨hpart, rfl⟩)).length_lt
    have hrest := search_resolve find part
    cases hfind : find part with
    | found a => simpa [lookupAt, hpart, hfind] using Search.hit h hpart hfind
    | nothing | failed =>
      simpa [lookupAt, hpart, hfind] using Search.miss h hpart (by simp [hfind]) hrest
termination_by name.length

theorem Search.isAnswer (h : Search find name r) : IsAnswer find name r := by
  induction h with
  | undotted h => exact fun other b hother => not_isPart_of_not_mem h hother.1
  | exhausted h =>
    rintro other b ⟨hother, -⟩
    obtain ⟨hne, rfl⟩ | hother := (isPart_append_iff h).mp hother
    · exact hne rfl
    · exact not_isPart_of_not_mem (by simp) hother
  | @hit part last a h hpart hfound =>
    refine ⟨part, ⟨(isPart_append_iff h).mpr (.inl ⟨hpart, rfl⟩), hfound⟩, fun other b hother => ?_⟩
    obtain ⟨-, rfl⟩ | hother := (isPart_append_iff h).mp hother.1
    · exact Nat.le_refl _
    · exact Nat.le_of_lt hother.length_lt
  | @miss part last r h hpart hmissing _ ih =>
    -- what is found under the name is found under the part
    have hfinds (other : String) (b : α) :
        Finds find (part ++ "." ++ last) other b ↔ Finds find part other b := by
      unfold Finds
      rw [isPart_append_iff h]
      refine and_congr_left fun hfound => or_iff_right ?_
      rintro ⟨-, rfl⟩
      exact hmissing b hfound
    cases r with
    | none => exact fun other b hother => ih other b ((hfinds other b).mp hother)
    | some a => simpa only [IsAnswer, FindsLongest, hfinds] using ih

theorem FindsLongest.unique {a b : α} (h : FindsLongest find name part a)
    (hother : FindsLongest find name other b) : a = b := by
  have hlength : part.length = other.length :=
    Nat.le_antisymm (hother.2 part a h.1) (h.2 other b hother.1)
  obtain ⟨⟨-, rest, rfl⟩, hfound⟩ := h.1
  obtain ⟨⟨-, rest', hrest⟩, hfound'⟩ := hother.1
  have hchars : part.toList ++ '.' :: rest.toList = other.toList ++ '.' :: rest'.toList := by
    simpa using congrArg String.toList hrest
  obtain rfl : part = other := String.toList_injective (List.append_inj_left hchars hlength)
  simpa [hfound] using hfound'

theorem IsAnswer.unique (h : IsAnswer find name r) (hother : IsAnswer find name s) : r = s := by
  cases r with
  | none =>
    cases s with
    | none => rfl
    | some b =>
      obtain ⟨part, hfinds, -⟩ := hother
      exact absurd hfinds (h part b)
  | some a =>
    obtain ⟨part, hpart⟩ := h
    cases s with
    | none => exact absurd hpart.1 (hother part a)
    | some b =>
      obtain ⟨other, hother⟩ := hother
      exact congrArg some (hpart.unique hother)

/-- The search for the module of a name ends, with what `resolve` gives: what is found under the
longest part of the name under which anything is, and nothing exactly if nothing is found under any.
A lookup that fails is one that finds nothing. -/
theorem search_ends_at_longest (find : String → Lookup α) (name : String) :
    (∀ r, Search find name r ↔ resolve find name = r) ∧
      (∀ a, resolve find name = some a ↔ ∃ part, FindsLongest find name part a) ∧
      (resolve find name = none ↔ ∀ part a, ¬ Finds find name part a) ∧
      resolve (fun part => (find part).caught) name = resolve find name := by
  have hsearch := search_resolve find name
  have hanswer (r : Option α) : resolve find name = r ↔ IsAnswer find name r :=
    ⟨fun h => h ▸ hsearch.isAnswer, fun h => hsearch.isAnswer.unique h⟩
  have hlookup : lookupAt (fun part => (find part).caught) = lookupAt find := by
    funext reversed
    cases h : find (String.ofList reversed.reverse) <;> simp [lookupAt, h, Lookup.caught]
  refine ⟨fun r => ⟨fun h => (hanswer r).mpr h.isAnswer, fun h => h ▸ hsearch⟩,
    fun a => hanswer (some a), hanswer none, ?_⟩
  rw [resolve, hlookup, resolve]

end Flowscript.ModulePath
