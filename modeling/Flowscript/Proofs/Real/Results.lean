import Flowscript.Proofs.Real.Load

/-!
# Arguments and results of real calls

A method gets its arguments by name: the defaults of the node, overridden by what is given. Hidden
inputs that ask for it get the prompt of the call or its id in that prompt. What the method returns is
wrapped, item by item, with the outputs that stand for the results, and a later call that takes one of
them takes the output along.
-/

namespace Flowscript

open List

variable {v : Value} {call : Nat}

open Value (mapValues)

namespace NodeInfo

theorem bindGroups_nil {info : Value} {groups : List String} {args : List Value}
    {bound : List (String × Value)} {result : List (String × Value) × List Value}
    (h : bindGroups info groups args bound = .ok result) (bound' : List (String × Value)) :
    bindGroups info groups [] bound' = .ok (bound', []) := by
  induction groups generalizing args bound with
  | nil => rfl
  | cons name groups ih =>
    rw [bindGroups] at h ⊢
    obtain ⟨group, hgroup, h⟩ := ok_of_bind h
    rw [hgroup, ok_bind]
    cases group with
    | none => exact ih h
    | some group =>
      obtain ⟨names, hnames, h⟩ := ok_of_bind h
      dsimp only
      rw [hnames, ok_bind]
      cases names with
      | nil => exact ih h
      | cons name names => rfl

theorem mem_bindNames (names args : List Value) (bound : List (String × Value)) :
    (∀ entry ∈ (bindNames names args bound).1, entry ∈ bound ∨ entry.2 ∈ args) ∧
      (bindNames names args bound).2.1 ⊆ args := by
  induction names generalizing args bound with
  | nil => exact ⟨fun _ h => .inl h, List.Subset.refl args⟩
  | cons name names ih =>
    cases args with
    | nil => exact ⟨fun _ h => .inl h, List.Subset.refl []⟩
    | cons arg args =>
      rw [bindNames]
      refine ⟨fun entry hentry => ?_, List.Subset.trans (ih args _).2 (subset_cons_self arg args)⟩
      rcases (ih args _).1 entry hentry with hbound | harg
      · rw [Value.put_eq_tablePut] at hbound
        rcases Table.mem_put_cases hbound with hold | rfl
        · exact .inl hold
        · exact .inr mem_cons_self
      · exact .inr (mem_cons_of_mem _ harg)

theorem mem_bindGroups {info : Value} {groups : List String} {args surplus : List Value}
    {bound bound' : List (String × Value)} (h : bindGroups info groups args bound = .ok (bound', surplus)) :
    ∀ entry ∈ bound', entry ∈ bound ∨ entry.2 ∈ args := by
  induction groups generalizing args bound with
  | nil =>
    cases h
    exact fun _ hentry => .inl hentry
  | cons name groups ih =>
    rw [bindGroups] at h
    obtain ⟨group, -, h⟩ := ok_of_bind h
    cases group with
    | none => exact ih h
    | some group =>
      obtain ⟨names, -, h⟩ := ok_of_bind h
      obtain ⟨hnames, hrest⟩ := mem_bindNames names args bound
      dsimp only at h
      split at h
      · cases h
        exact hnames
      · intro entry hentry
        rcases ih h entry hentry with hold | hnew
        · exact hnames entry hold
        · exact .inr (hrest hnew)

end NodeInfo

namespace Value

theorem lookup_mapValues (f : Value → Value) (key : String) (entries : List (String × Value)) :
    lookup key (mapValues f entries) = (lookup key entries).map f := by
  induction entries with
  | nil => rfl
  | cons entry rest ih =>
    by_cases hk : entry.1 = key
    · simp [mapValues, lookup, hk]
    · simpa [mapValues, lookup, hk] using ih

theorem map_fst_mapValues (f : Value → Value) (entries : List (String × Value)) :
    (mapValues f entries).map Prod.fst = entries.map Prod.fst := by
  simp [mapValues]

theorem lookup_of_lookup_merge_none {key : String} {left right : List (String × Value)}
    (h : lookup key (merge left right) = none) : lookup key left = none := by
  induction right generalizing left with
  | nil => exact h
  | cons first rest ih =>
    have hrest : lookup key (merge (put first.1 first.2 left) rest) = none := h
    have hput := ih hrest
    rw [lookup_put] at hput
    split at hput
    · cases hput
    · exact hput

theorem lookup_merge_again {defaults : List (String × Value)} (hnodup : (defaults.map Prod.fst).Nodup)
    (f : Value → Value) (entries : List (String × Value)) (key : String) :
    lookup key (merge defaults (mapValues f (merge defaults entries))) =
      (lookup key (merge defaults entries)).map f := by
  have hkeys : ((mapValues f (merge defaults entries)).map Prod.fst).Nodup := by
    rw [map_fst_mapValues]
    exact nodup_keys_merge entries hnodup
  rw [lookup_merge key defaults hkeys, lookup_mapValues]
  cases hlookup : lookup key (merge defaults entries) with
  | some v => rfl
  | none => exact lookup_of_lookup_merge_none hlookup

end Value

/-- An argument that is given, and neither wraps a result nor stands for an empty one. -/
structure Value.Plain (v : Value) : Prop where
  given : v ≠ .null
  bare : ∀ inner output, v ≠ .wrapped inner output
  full : isEmptyOutput v = false

def Value.isPlain : Value → Bool
  | null | wrapped _ _ => false
  | v => !isEmptyOutput v

theorem Value.isPlain_iff : v.isPlain = true ↔ v.Plain := by
  constructor
  · intro h
    refine ⟨?_, ?_, ?_⟩
    · rintro rfl
      cases h
    · rintro inner o rfl
      cases h
    · cases v <;> simp_all [isPlain, isEmptyOutput]
  · rintro ⟨hgiven, hbare, hfull⟩
    cases v with
    | null => exact absurd rfl hgiven
    | wrapped inner o => exact absurd rfl (hbare inner o)
    | _ => simp [isPlain, hfull]

instance (v : Value) : Decidable v.Plain := decidable_of_iff _ Value.isPlain_iff

namespace Prompt

theorem map_fst_writeInputs {info : Value} {inputs sent : List (String × Value)} {p p' : Prompt}
    (h : writeInputs info inputs p = .ok (sent, p')) : sent.map Prod.fst = inputs.map Prod.fst := by
  induction inputs generalizing sent p with
  | nil =>
    rw [writeInputs] at h
    cases h
    rfl
  | cons input rest ih =>
    rw [writeInputs] at h
    obtain ⟨⟨written, p₁⟩, hwritten, h⟩ := ok_of_bind h
    obtain ⟨⟨others, p₂⟩, hothers, h⟩ := ok_of_bind h
    cases h
    have hname : written.1 = input.1 := by
      obtain ⟨name, v⟩ := input
      unfold writeInput at hwritten
      split at hwritten
      · obtain ⟨b, -, hb⟩ := ok_of_bind hwritten
        cases hb
        rfl
      · obtain ⟨q, -, hq⟩ := ok_of_bind hwritten
        cases hq
        rfl
    rw [map_cons, map_cons, hname, ih hothers]

theorem own_entry {object call : Nat} {typeName : String} {info type : Value}
    {inputs : List (String × Value)} {slot : Option Nat} {p : Prompt}
    (h : ofOutput (.output object typeName info call type inputs slot) = .ok p) :
    ∃ id sent, p.ids.id? call = some id ∧
      Value.lookup id p.entries = some (.dict [("inputs", .dict sent), ("class_type", type)]) ∧
      sent.map Prod.fst = inputs.map Prod.fst := by
  rw [ofOutput, add, write] at h
  simp only [empty, IdTable.empty, IdTable.id?, Table.find?] at h
  obtain ⟨⟨v, q⟩, hwrite, rfl⟩ := ok_of_map h
  obtain ⟨⟨sent, p₁⟩, hsent, hwrite⟩ := ok_of_bind hwrite
  obtain ⟨⟨id, ids⟩, hassign, hwrite⟩ := ok_of_bind hwrite
  cases hwrite
  refine ⟨id, sent, ?_, ?_, map_fst_writeInputs hsent⟩
  · unfold IdTable.assign at hassign
    split at hassign
    · cases hassign
    · cases hassign
      exact Table.find?_put_self call _ _
  · rw [Value.lookup_put, if_pos rfl]

end Prompt

namespace RealM

variable {output : Value} {given named : List (String × Value)}

def hiddenOf (info : Value) : List (String × Value) :=
  match NodeInfo.group? info "hidden" with
  | .ok (some hidden) => match hidden.bare with
    | .dict entries => entries
    | _ => []
  | _ => []

/-- What a hidden input has before it is filled in, and after. -/
inductive Injected (output : Value) (given : List (String × Value)) (key : String) (kind : Value)
    (before : Option Value) : Option Value → Prop where
  | kept (h : Value.hasKey key given = true ∨
      (kind == .str "PROMPT") = false ∧ (kind == .str "UNIQUE_ID") = false) :
    Injected output given key kind before before
  | prompt {p : Prompt} (hgiven : Value.hasKey key given = false)
      (hkind : (kind == .str "PROMPT") = true) (hp : Prompt.ofOutput output = .ok p) :
    Injected output given key kind before (some p.toValue)
  | uniqueId {p : Prompt} (hgiven : Value.hasKey key given = false)
      (hkind : (kind == .str "UNIQUE_ID") = true) (hp : Prompt.ofOutput output = .ok p) :
    Injected output given key kind before (some (ownId p output))

theorem of_injectInput {kind : Value} {named' : List (String × Value)} {key : String}
    (h : injectInput output given named key kind = .ok named') :
    Injected output given key kind (Value.lookup key named) (Value.lookup key named') ∧
      ∀ other, other ≠ key → Value.lookup other named' = Value.lookup other named := by
  unfold injectInput at h
  split at h
  · next hgiven =>
    cases h
    exact ⟨.kept (.inl hgiven), fun _ _ => rfl⟩
  · next hgiven =>
    have hgiven : Value.hasKey key given = false := Bool.eq_false_iff.mpr hgiven
    split at h
    · next hkind =>
      obtain ⟨p, hp, h⟩ := ok_of_bind h
      cases h
      rw [Value.lookup_put, if_pos rfl]
      refine ⟨.prompt hgiven hkind hp, fun other hother => ?_⟩
      rw [Value.lookup_put, if_neg hother.symm]
    · next hprompt =>
      split at h
      · next hkind =>
        obtain ⟨p, hp, h⟩ := ok_of_bind h
        cases h
        rw [Value.lookup_put, if_pos rfl]
        refine ⟨.uniqueId hgiven hkind hp, fun other hother => ?_⟩
        rw [Value.lookup_put, if_neg hother.symm]
      · next hid =>
        cases h
        exact ⟨.kept (.inr ⟨Bool.eq_false_iff.mpr hprompt, Bool.eq_false_iff.mpr hid⟩), fun _ _ => rfl⟩

theorem of_injectInputs_fold {rest : List Value} {entries filled : List (String × Value)}
    (hnodup : (entries.map Prod.fst).Nodup)
    (h : entries.foldlM (fun named (k, kind) => do
      injectInput (← firstOutput (some (output :: rest))) given named k kind) named = .ok filled) :
    (∀ key ∉ entries.map Prod.fst, Value.lookup key filled = Value.lookup key named) ∧
      ∀ entry ∈ entries, Injected output given entry.1 entry.2 (Value.lookup entry.1 named)
        (Value.lookup entry.1 filled) := by
  induction entries generalizing named with
  | nil =>
    cases h
    exact ⟨fun _ _ => rfl, fun _ hentry => nomatch hentry⟩
  | cons first entries ih =>
    rw [map_cons, nodup_cons] at hnodup
    rw [foldlM_cons] at h
    obtain ⟨named₁, hfirst, h⟩ := ok_of_bind h
    obtain ⟨hinjected, hothers⟩ := of_injectInput hfirst
    obtain ⟨hkept, hlater⟩ := ih hnodup.2 h
    constructor
    · intro key hkey
      rw [map_cons, mem_cons, not_or] at hkey
      rw [hkept key hkey.2, hothers key hkey.1]
    · intro entry hentry
      rcases mem_cons.mp hentry with rfl | hentry
      · rw [hkept entry.1 hnodup.1]
        exact hinjected
      · have hne : entry.1 ≠ first.1 := by
          intro heq
          exact hnodup.1 (heq ▸ mem_map_of_mem hentry)
        rw [← hothers entry.1 hne]
        exact hlater entry hentry

theorem of_injectInputs {l : Layer} {rest : List Value} {filled : List (String × Value)}
    (hnodup : ((hiddenOf l.info).map Prod.fst).Nodup)
    (h : injectInputs l (output :: rest) given named = .ok filled) :
    (∀ key ∉ (hiddenOf l.info).map Prod.fst, Value.lookup key filled = Value.lookup key named) ∧
      ∀ entry ∈ hiddenOf l.info, Injected output given entry.1 entry.2 (Value.lookup entry.1 named)
        (Value.lookup entry.1 filled) := by
  unfold injectInputs at h
  obtain ⟨group, hgroup, h⟩ := ok_of_bind h
  unfold hiddenOf at hnodup ⊢
  rw [hgroup] at hnodup ⊢
  cases group with
  | none =>
    cases h
    exact ⟨fun _ _ => rfl, fun _ hentry => nomatch hentry⟩
  | some hidden =>
    cases hbare : hidden.bare with
    | dict entries =>
      simp only [hbare] at h hnodup ⊢
      exact of_injectInputs_fold hnodup h
    | _ =>
      simp only [hbare] at h
      cases h

def packed (items outputs : List Value) : Value :=
  match (items.zip outputs).map fun (v, output) => Value.wrapped v output with
  | [result] => result
  | results => .list results

end RealM

def Value.pieces : Value → List (Value × Value)
  | wrapped v o => [(v, o)]
  | list items => items.filterMap fun
    | wrapped v o => some (v, o)
    | _ => none
  | _ => []

theorem RealM.pieces_packed (items outputs : List Value) :
    (packed items outputs).pieces = items.zip outputs := by
  unfold packed
  cases items.zip outputs with
  | nil => rfl
  | cons piece pieces =>
    cases pieces with
    | nil => rfl
    | cons piece' pieces =>
      simp only [map_cons, Value.pieces, filterMap_cons, filterMap_map]
      exact congrArg (piece :: piece' :: ·) filterMap_some

theorem RealM.packed_cases {items outputs : List Value} (h : items.zip outputs ≠ []) :
    (∃ inner o, items.zip outputs = [(inner, o)] ∧ packed items outputs = .wrapped inner o) ∨
      packed items outputs = .list ((items.zip outputs).map fun (v, o) => .wrapped v o) ∧
        (packed items outputs).isSeveral = true := by
  unfold packed
  cases hzip : items.zip outputs with
  | nil => exact absurd hzip h
  | cons piece pieces =>
    cases pieces with
    | nil => exact .inl ⟨_, _, rfl, rfl⟩
    | cons piece' pieces => exact .inr ⟨rfl, rfl⟩

def Value.IsSlot (call i : Nat) (o : Value) : Prop :=
  ∃ object typeName info type inputs, o = .output object typeName info call type inputs (some i)

def Value.PackedBy (call : Nat) (v : Value) : Prop :=
  ∃ items outputs, v = RealM.packed items outputs ∧ items ≠ [] ∧
    List.Forall₂ (Value.IsSlot call) (List.range items.length) outputs

/-- Every answer with a result is wrapped with the outputs of a call, whose identity is below a
bound. -/
def Packs (bound : Nat) (answers : List Answer) : Prop :=
  ∀ v, .ok v ∈ answers → ∃ call < bound, v.PackedBy call

/-- The value is a result of one of the answers, with the output that stands for it: its slot is its
place among the results. -/
def ResultOf (answers : List Answer) (w : Value) : Prop :=
  ∃ (j i call : Nat) (v inner o : Value), answers[j]? = some (.ok v) ∧ v.PackedBy call ∧
    v.pieces[i]? = some (inner, o) ∧ o.IsSlot call i ∧ w = .wrapped inner o

theorem Value.PackedBy.zip_ne_nil {items outputs : List Value} (hitems : items ≠ [])
    (h : List.Forall₂ (Value.IsSlot call) (List.range items.length) outputs) :
    items.zip outputs ≠ [] := by
  have hlength := h.length_eq
  rw [length_range] at hlength
  rw [← length_pos_iff, length_zip, ← hlength, Nat.min_self]
  exact length_pos_iff.mpr hitems

theorem Value.PackedBy.isSlot {i : Nat} {inner o : Value} (h : v.PackedBy call)
    (hpiece : v.pieces[i]? = some (inner, o)) : o.IsSlot call i := by
  obtain ⟨items, outputs, rfl, -, hslots⟩ := h
  rw [RealM.pieces_packed, getElem?_zip_eq_some] at hpiece
  obtain ⟨hi, hslot⟩ := List.forall₂_iff_get.mp hslots
  obtain ⟨hlt, rfl⟩ := List.getElem?_eq_some_iff.mp hpiece.2
  simpa using hslot i (hi ▸ hlt) hlt

theorem Value.PackedBy.unique {call' : Nat} (h : v.PackedBy call) (h' : v.PackedBy call') :
    call = call' := by
  obtain ⟨items, outputs, rfl, hitems, hslots⟩ := id h
  have hne := zip_ne_nil hitems hslots
  cases hzip : items.zip outputs with
  | nil => exact absurd hzip hne
  | cons piece rest =>
    have hpiece : (RealM.packed items outputs).pieces[0]? = some (piece.1, piece.2) := by
      rw [RealM.pieces_packed, hzip]
      rfl
    obtain ⟨_, _, _, _, _, hslot⟩ := h.isSlot hpiece
    obtain ⟨_, _, _, _, _, hslot'⟩ := h'.isSlot hpiece
    rw [hslot] at hslot'
    cases hslot'
    rfl

theorem CallArgument.of_pick {bound : Nat} {answers : List Answer} (hanswers : Packs bound answers)
    {a : CallArgument} {w : Value} (h : a.pick answers = .ok w) : a = .value w ∨ ResultOf answers w := by
  have hanswer {j : Nat} {f : Answer → Answer} (hf : ∀ e, f (.error e) = .error .unbound)
      (h : f (answers[j]?.getD (.error .unbound)) = .ok w) :
      ∃ v, answers[j]? = some (.ok v) ∧ f (.ok v) = .ok w := by
    cases hj : answers[j]? with
    | none => rw [hj, Option.getD_none, hf] at h; cases h
    | some answer =>
      rw [hj, Option.getD_some] at h
      cases answer with
      | error e => rw [hf] at h; cases h
      | ok v => exact ⟨v, rfl, h⟩
  cases a with
  | value v =>
    cases h
    exact .inl rfl
  | result j =>
    obtain ⟨v, hj, h⟩ := hanswer (f := Answer.only) (fun _ => rfl) h
    obtain ⟨call, -, hpacked⟩ := hanswers v (mem_of_getElem? hj)
    obtain ⟨items, outputs, rfl, hitems, hslots⟩ := id hpacked
    have hne := Value.PackedBy.zip_ne_nil hitems hslots
    rcases RealM.packed_cases hne with ⟨inner, o, hzip, hsingle⟩ | ⟨-, hseveral⟩
    · rw [hsingle] at h
      cases h
      have hpiece : (RealM.packed items outputs).pieces[0]? = some (inner, o) := by
        rw [RealM.pieces_packed, hzip]
        rfl
      exact .inr ⟨j, 0, call, _, inner, o, hj, hpacked, hpiece, hpacked.isSlot hpiece, rfl⟩
    · rw [Answer.only, hseveral] at h
      cases h
  | item j i =>
    obtain ⟨v, hj, h⟩ := hanswer (f := Answer.part i) (fun _ => rfl) h
    obtain ⟨call, -, hpacked⟩ := hanswers v (mem_of_getElem? hj)
    obtain ⟨items, outputs, rfl, hitems, hslots⟩ := id hpacked
    have hne := Value.PackedBy.zip_ne_nil hitems hslots
    rcases RealM.packed_cases hne with ⟨inner, o, -, hsingle⟩ | ⟨hseveral, -⟩
    · rw [hsingle] at h
      cases h
    · rw [hseveral, Answer.part] at h
      dsimp only [Value.parts] at h
      cases hpart : ((items.zip outputs).map fun (v, o) => Value.wrapped v o)[i]? with
      | none =>
        rw [hpart] at h
        cases h
      | some part =>
        rw [hpart] at h
        cases h
        rw [getElem?_map] at hpart
        obtain ⟨⟨inner, o⟩, hpiece, rfl⟩ := Option.map_eq_some_iff.mp hpart
        rw [← RealM.pieces_packed] at hpiece
        exact .inr ⟨j, i, call, _, inner, o, hj, hpacked, hpiece, hpacked.isSlot hpiece, rfl⟩

end Flowscript
