import Flowscript.Enumeration
import Flowscript.Proofs.RawIdentifier
import Flowscript.Proofs.Runs

/-!
# Names of members

The member names of an enumeration are raw identifiers with underscores behind them. A name that is
taken gets an underscore, and a second one if the first makes it reserved, until it is free. Each try
is longer than the one before, so there is a free one after as many tries as there are names.
-/

namespace Flowscript.Enumeration

open Identifier List

variable {taken : List String} {name found key : String} {items named : List (String × Value)}

/-! ## The search for a free name -/

inductive Renames (taken : List String) : String → String → Prop
  | free {name : String} (h : name ∉ taken) : Renames taken name name
  | again {name found : String} (h : name ∈ taken)
      (hrest : Renames taken (avoidReserved (name ++ "_")) found) : Renames taken name found

theorem Renames.unique {other : String} (h : Renames taken name found)
    (hother : Renames taken name other) : found = other := by
  induction h with
  | free hfree =>
    cases hother with
    | free => rfl
    | again hmem => exact absurd hmem hfree
  | again hmem _ ih =>
    cases hother with
    | free hfree => exact absurd hmem hfree
    | again _ hrest => exact ih hrest

theorem Renames.invariant {P : String → Prop} (hstep : ∀ name, P name → P (avoidReserved (name ++ "_")))
    (h : Renames taken name found) (hname : P name) : found ∉ taken ∧ P found := by
  induction h with
  | free hfree => exact ⟨hfree, hname⟩
  | again _ _ ih => exact ih (hstep _ hname)

/-- A number of underscores. -/
def line (n : Nat) : String := String.ofList (List.replicate n '_')

theorem append_line_append (name : String) (n : Nat) : name ++ line n ++ "_" = name ++ line (n + 1) := by
  apply String.toList_injective
  simp [line, replicate_succ']

theorem exists_avoidReserved (name : String) : ∃ n, avoidReserved name = name ++ line n := by
  unfold avoidReserved
  split
  · exact ⟨1, rfl⟩
  · exact ⟨0, String.append_empty.symm⟩

theorem isReserved_avoidReserved (name : String) : isReserved (avoidReserved name).toList = false := by
  unfold avoidReserved
  split
  next h =>
    -- the underscore behind a reserved name stands beside another
    have hlast : name.toList.getLast? = some '_' := by
      simp only [isReserved, Bool.and_eq_true, beq_iff_eq] at h
      exact h.1.1.2
    simp [isReserved, String.toList_append, hlast]
  next h => exact Bool.eq_false_iff.mpr h

theorem renames_freeName {fuel : Nat} (h : (taken.filter (name.length ≤ ·.length)).length < fuel) :
    Renames taken name (freeName taken fuel name) := by
  induction fuel generalizing name with
  | zero => omega
  | succ fuel ih =>
    rw [freeName]
    split
    next hmem =>
      have hmem := contains_iff_mem.mp hmem
      have hlonger : name.length < (avoidReserved (name ++ "_")).length := by
        obtain ⟨n, hn⟩ := exists_avoidReserved (name ++ "_")
        rw [hn]
        simp only [String.length_append]
        exact Nat.lt_of_lt_of_le (Nat.lt_succ_self _) (Nat.le_add_right _ _)
      refine .again hmem (ih ?_)
      -- the name itself is no longer among those to fear
      have hfewer : taken.filter ((avoidReserved (name ++ "_")).length ≤ ·.length) =
          (taken.filter (name.length ≤ ·.length)).filter
            ((avoidReserved (name ++ "_")).length ≤ ·.length) := by
        rw [filter_filter]
        refine filter_congr fun other _ => ?_
        simp only [← Bool.decide_and, decide_eq_decide]
        omega
      rw [hfewer]
      refine Nat.lt_of_lt_of_le (length_filter_lt_length_iff_exists.mpr ⟨name, ?_, ?_⟩)
        (Nat.lt_succ_iff.mp h)
      · exact mem_filter.mpr ⟨hmem, decide_eq_true (Nat.le_refl _)⟩
      · simpa using hlonger
    next hmem => exact .free fun h => hmem (contains_iff_mem.mpr h)

/-! ## The names of an enumeration -/

/-- What the name of a member is, given the names before. -/
structure IsMemberName (taken : List String) (key name : String) : Prop where
  found : ∀ found, Renames taken (avoidReserved (raw key)) found ↔ found = name
  new : name ∉ taken
  lined : ∃ n, name = raw key ++ line n
  valid : isValid name.toList = true
  free : isKeyword name = false
  unreserved : isReserved name.toList = false

theorem isMemberName_memberName (taken : List String) (key : String) :
    IsMemberName taken key (memberName taken key) := by
  have hrenames : Renames taken (avoidReserved (raw key)) (memberName taken key) :=
    renames_freeName (Nat.lt_succ_of_le (length_filter_le _ _))
  obtain ⟨hnew, hunreserved, n, hn⟩ := hrenames.invariant
    (P := fun name => isReserved name.toList = false ∧ ∃ n, name = raw key ++ line n)
    (fun name hname => by
      obtain ⟨-, n, rfl⟩ := hname
      obtain ⟨k, hk⟩ := exists_avoidReserved (raw key ++ line n ++ "_")
      refine ⟨isReserved_avoidReserved _, n + 1 + k, hk.trans ?_⟩
      apply String.toList_injective
      simp [line, replicate_add])
    ⟨isReserved_avoidReserved _, exists_avoidReserved _⟩
  refine ⟨fun found => ⟨fun h => h.unique hrenames, fun h => h ▸ hrenames⟩, hnew, ⟨n, hn⟩, ?_, ?_,
    hunreserved⟩
  · rw [hn, String.toList_append, line, String.toList_ofList]
    exact Alphabet.isValid_append_line (isRaw_unicode key).valid n
  · cases n with
    | zero => exact (hn.trans String.append_empty) ▸ (isRaw_unicode key).free
    | succ n =>
      have hletter : ∀ word ∈ keywords, word.toList.getLast? ≠ some '_' := by decide +kernel
      refine Bool.eq_false_iff.mpr fun hword => hletter _ (contains_iff_mem.mp hword) ?_
      rw [hn, ← append_line_append]
      simp [String.toList_append]

theorem assignNames_append (items : List (String × Value)) (key : String) (v : Value) :
    assignNames (items ++ [(key, v)]) =
      assignNames items ++ [(memberName ((assignNames items).map Prod.fst) key, v)] :=
  foldl_append

/-- The members that entries get: one for each, in order, with its value and a name of its own. -/
structure IsNamed (items named : List (String × Value)) : Prop where
  values : named.map Prod.snd = items.map Prod.snd
  distinct : (named.map Prod.fst).Nodup
  names : ∀ i key v, items[i]? = some (key, v) → ∃ name, named[i]? = some (name, v) ∧
    IsMemberName ((named.take i).map Prod.fst) key name

theorem IsNamed.length_eq (h : IsNamed items named) : named.length = items.length := by
  simpa using congrArg List.length h.values

theorem isNamed_assignNames (items : List (String × Value)) : IsNamed items (assignNames items) := by
  induction items using List.reverseRecOn with
  | nil => exact ⟨rfl, nodup_nil, by simp⟩
  | append_singleton items entry ih =>
    obtain ⟨key, v⟩ := entry
    have hname := isMemberName_memberName ((assignNames items).map Prod.fst) key
    rw [assignNames_append]
    refine ⟨by simp [ih.values], ?_, fun i k w hi => ?_⟩
    · rw [map_append]
      refine nodup_append.mpr ⟨ih.distinct, by simp, fun a ha b hb heq => hname.new ?_⟩
      exact (heq.trans (mem_singleton.mp hb) : a = memberName _ key) ▸ ha
    · rcases Nat.lt_or_ge i items.length with hlt | hge
      · rw [getElem?_append_left hlt] at hi
        obtain ⟨name, hnamed, his⟩ := ih.names i k w hi
        have hlt' : i < (assignNames items).length := ih.length_eq ▸ hlt
        refine ⟨name, (getElem?_append_left hlt').trans hnamed, ?_⟩
        rwa [take_append_of_le_length hlt'.le]
      · rw [getElem?_append_right hge] at hi
        obtain ⟨hi0, heq⟩ : i - items.length = 0 ∧ (key, v) = (k, w) := by
          rcases hsub : i - items.length with - | n
          · exact ⟨rfl, by simpa [hsub] using hi⟩
          · simp [hsub] at hi
        cases heq
        obtain rfl : i = (assignNames items).length := by rw [ih.length_eq]; omega
        exact ⟨_, getElem?_concat_length, by rwa [take_left]⟩

/-! ## The enumeration and its text -/

theorem map_name_addMember (members : List EnumMember) (name : String) (v : Value) :
    (addMember members name v).map EnumMember.name = members.map EnumMember.name ++ [name] := by
  unfold addMember
  split <;> exact map_append

/-- A value that an enumeration can have: one of texts has texts, and one of whole numbers has these. -/
def Suits : EnumBase → Value → Prop
  | .text, .str _ | .whole, .int _ | .decimal, _ | .plain, _ => True
  | _, _ => False

theorem exists_memberValue {base : EnumBase} {v : Value} (h : Suits base v) :
    ∃ w, memberValue base v = .ok w := by
  cases base with
  | text | whole =>
    cases v with
    | str | int => first | exact h.elim | exact ⟨_, rfl⟩
    | _ => exact h.elim
  | decimal | plain => exact ⟨_, rfl⟩

theorem exists_build {base : EnumBase} (id : String) (h : ∀ v ∈ named.map Prod.snd, Suits base v)
    (hmro : "mro" ∉ named.map Prod.fst) : ∃ e, build base id named = .ok e ∧
      e.members.map EnumMember.name = named.map Prod.fst := by
  obtain ⟨members, hmembers, hnames⟩ := foldlM_ok (f := fun members entry => do
      .ok (addMember members entry.1 (← memberValue base entry.2))) (b := [])
    (fun done members => members.map EnumMember.name = done.map Prod.fst) named
    (fun done entry rest members hnamed hdone => by
      obtain ⟨w, hw⟩ := exists_memberValue (h entry.2 (mem_map_of_mem (by simp [hnamed])))
      refine ⟨addMember members entry.1 w, by rw [hw]; rfl, ?_⟩
      rw [map_name_addMember, hdone, map_append]
      rfl)
    rfl
  have hany : (named.any fun entry => entry.1 == "mro") = false := by
    refine any_eq_false.mpr fun entry hentry heq => hmro ?_
    exact beq_iff_eq.mp heq ▸ mem_map_of_mem hentry
  refine ⟨⟨id, base, members⟩, ?_, hnames⟩
  simp only [build, hany, hmembers]
  rfl

def literal : Value → String
  | .str s => Literal.write s
  | v => v.shown

/-- The text of an enumeration whose members have the names and values given. -/
def text (margin id baseText : String) (names : List String) (values : List Value) : String :=
  margin ++ "class " ++ id ++ "(" ++ baseText ++ "):" ++
    (if names = [] then "\n" ++ margin ++ "    pass"
    else String.join (List.zipWith (fun name v => "\n" ++ margin ++ "    " ++ name ++ " = " ++ literal v)
      names values)) ++ "\n"

theorem declare_eq_text (margin id baseText : String) (named : List (String × Value)) :
    declare margin id baseText named =
      text margin id baseText (named.map Prod.fst) (named.map Prod.snd) := by
  have hlines : List.zipWith (fun name v => "\n" ++ margin ++ "    " ++ name ++ " = " ++ literal v)
      (named.map Prod.fst) (named.map Prod.snd) =
        named.map fun entry => "\n" ++ margin ++ "    " ++ entry.1 ++ " = " ++ literal entry.2 := by
    rw [zipWith_map, zipWith_self]
  unfold declare text
  rw [hlines]
  cases named <;> rfl

/-- The loop that names the members of an enumeration ends with one for each entry, in order, with its
value and a name of its own. The text and the enumeration have these names in this order; only `mro`
is a name that no member can have. -/
theorem members_named (items : List (String × Value)) (id margin baseText : String) :
    let named := assignNames items
    let names := named.map Prod.fst
    IsNamed items named ∧
      declare margin id baseText named = text margin id baseText names (items.map Prod.snd) ∧
      ∀ base, (∀ v ∈ items.map Prod.snd, Suits base v) →
        if "mro" ∈ names then ofItems base id margin baseText items = .error .badValue
        else ∃ e, ofItems base id margin baseText items = .ok (declare margin id baseText named, e) ∧
          e.members.map EnumMember.name = names := by
  intro named names
  have hnamed := isNamed_assignNames items
  refine ⟨hnamed, hnamed.values ▸ declare_eq_text margin id baseText named, fun base hsuits => ?_⟩
  split
  next hmro =>
    obtain ⟨entry, hentry, hname⟩ := List.mem_map.mp hmro
    have hany : (named.any fun entry => entry.1 == "mro") = true :=
      List.any_eq_true.mpr ⟨entry, hentry, beq_iff_eq.mpr hname⟩
    simp only [ofItems, build, show assignNames items = named from rfl, hany]
    rfl
  next hmro =>
    obtain ⟨e, he, hnames⟩ := exists_build id (hnamed.values ▸ hsuits) hmro
    refine ⟨e, ?_, hnames⟩
    rw [ofItems, he]
    rfl

end Flowscript.Enumeration
