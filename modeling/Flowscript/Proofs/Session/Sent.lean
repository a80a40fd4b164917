import Flowscript.Proofs.Identifier
import Flowscript.Proofs.Registry.Reading
import Flowscript.Proofs.Session.Arguments

/-!
# What calls send

A call of a node sends the arguments under the names of the declared inputs. Default values are
found under the identifiers of these names, so that a call sends what is declared exactly if each
input with a default value has a name that is an identifier.
-/

namespace Flowscript

open List Option

variable {info : Value} {args : List Value} {name : String}

theorem Value.iterate_of_entries {v : Value} {items : List (String × Value)} (h : v.entries = .ok items) :
    v.iterate = .ok ((items.map Prod.fst).map .str) := by
  unfold entries at h
  unfold iterate
  split at h
  next hdict =>
    cases h
    rw [hdict, List.map_map]
    rfl
  next => cases h

theorem zip_append_left {α β : Type} (left right : List α) (values : List β) :
    (left ++ right).zip values = left.zip values ++ right.zip (values.drop left.length) := by
  induction left generalizing values with
  | nil => rfl
  | cons a left ih =>
    cases values with
    | nil => simp
    | cons b values => simp [ih]

theorem Value.lookup_zip {names : List String} (hnames : names.Nodup) {i : Nat} (h : names[i]? = some name)
    (values : List Value) : lookup name (names.zip values) = values[i]? := by
  induction names generalizing i values with
  | nil => simp at h
  | cons first rest ih =>
    obtain ⟨hfirst, hrest⟩ := nodup_cons.mp hnames
    cases values with
    | nil => rfl
    | cons v values =>
      cases i with
      | zero =>
        cases h
        simp [lookup]
      | succ i =>
        have hne : first ≠ name := fun heq => hfirst (heq ▸ mem_of_getElem? h)
        simpa [lookup, hne] using ih hrest h values

namespace NodeInfo

theorem bindNames_zip (names : List String) (args : List Value) (bound : List (String × Value)) :
    bindNames (names.map .str) args bound =
      (Value.merge bound (names.zip args), args.drop names.length, decide (args.length < names.length)) := by
  induction names generalizing args bound with
  | nil => rfl
  | cons name names ih =>
    cases args with
    | nil => rfl
    | cons arg args =>
      refine (ih args (Value.put name arg bound)).trans ?_
      simp only [length_cons, Nat.add_lt_add_iff_right]
      rfl

theorem bindGroups_declared {listed : List (String × Bool)} {groups : List (List DeclaredInput)}
    (h : listed.mapM (declaredIn info) = .ok groups) (hargs : args.length ≤ groups.flatten.length)
    (bound : List (String × Value)) :
    bindGroups info (listed.map Prod.fst) args bound =
      .ok (Value.merge bound ((groups.flatten.map DeclaredInput.name).zip args), []) := by
  induction listed generalizing groups args bound with
  | nil =>
    cases h
    obtain rfl := length_eq_zero_iff.mp (Nat.le_zero.mp hargs)
    rfl
  | cons group rest ih =>
    rw [mapM_cons] at h
    obtain ⟨first, hfirst, h⟩ := ok_of_bind h
    obtain ⟨others, hothers, h⟩ := ok_of_bind h
    cases h
    obtain ⟨g, hg, hfirst⟩ := ok_of_bind hfirst
    rw [map_cons, bindGroups, hg, ok_bind]
    cases g with
    | none =>
      cases hfirst
      exact ih hothers hargs bound
    | some g =>
      obtain ⟨entries, hentries, hfirst⟩ := ok_of_bind hfirst
      have hnames : first.map DeclaredInput.name = entries.map Prod.fst := by
        rw [← Except.ok.inj hfirst, List.map_map]
        rfl
      have hlength : first.length = (entries.map Prod.fst).length := by rw [← hnames, length_map]
      rw [flatten_cons, length_append, hlength] at hargs
      rw [flatten_cons, map_append, hnames, zip_append_left, Value.merge_append]
      simp only [Value.iterate_of_entries hentries, ok_bind, bindNames_zip, decide_eq_true_eq]
      split
      next hfew => rw [drop_eq_nil_of_le (Nat.le_of_lt hfew), zip_nil_right, Value.merge_nil]
      next => exact ih hothers (by rw [length_drop]; omega) _

end NodeInfo

/-- What a call sends: the default values of the node, overridden by the arguments that count. -/
def NodeEntry.sent (entry : NodeEntry) (args : List Value) : Except Fault (List (String × Value)) := do
  let bound ← NodeInfo.bind entry.info args
  let kept ← dropNulls bound.1
  .ok (Value.merge entry.defaults kept)

def LeftBy (inputs : List (String × Value)) (v : Value) : Prop :=
  ∃ outputs, (v = .list outputs ∨ outputs = [v]) ∧ outputs ≠ [] ∧ ∀ o ∈ outputs,
    ∃ object typeName info call type slot, o = .output object typeName info call type inputs slot

namespace SessionM

variable {κ : Type} {n : VirtualNode} {s s' : Session κ} {v : Value}

theorem leftBy_callNode (h : (callNode n args []).run s = (.ok v, s')) :
    ∃ inputs, n.entry.sent args = .ok inputs ∧ LeftBy inputs v := by
  obtain ⟨bound, surplus, kept, made, s₁, s₂, hbind, hkept, hmade, hv⟩ := of_run_callNode h
  obtain ⟨call, type, outputs, hall, hne, houtputs, -⟩ := of_run_makeOutputs hmade
  refine ⟨Value.merge n.entry.defaults kept, ?_, outputs, ?_, hne, fun o ho => ?_⟩
  · rw [Value.merge_nil] at hkept
    rw [NodeEntry.sent, hbind, ok_bind, hkept]
    rfl
  · obtain rfl | ⟨-, hsingle, rfl⟩ := hv
    · exact hall.imp_right And.left
    · obtain rfl | ⟨rfl, -⟩ := hall
      · exact absurd rfl (hsingle outputs)
      · exact .inl rfl
  · obtain ⟨object, typeName, slot, rfl⟩ := houtputs o ho
    exact ⟨_, _, _, _, _, _, rfl⟩

end SessionM

theorem Value.given_eq_some_iff {v w : Value} : v.given = some w ↔ v ≠ .null ∧ v = w := by
  cases v <;> simp [given]

namespace DeclaredInput

variable {xs : List DeclaredInput}

def noted (xs : List DeclaredInput) : List (String × Value) :=
  xs.filterMap fun x => x.default.given.map fun v => (Identifier.raw x.name, v)

theorem mem_noted {key : String} {v : Value} : (key, v) ∈ noted xs ↔
    ∃ x ∈ xs, x.default ≠ .null ∧ x.default = v ∧ Identifier.raw x.name = key := by
  simp only [noted, mem_filterMap, map_eq_some_iff, Value.given_eq_some_iff, Prod.mk.injEq]
  constructor
  · rintro ⟨x, hx, w, ⟨hne, hw⟩, hkey, rfl⟩
    exact ⟨x, hx, hne, hw, hkey⟩
  · rintro ⟨x, hx, hne, hv, hkey⟩
    exact ⟨x, hx, v, ⟨hne, hv⟩, hkey, rfl⟩

end DeclaredInput

namespace Hinting

variable {scope : Scope} {f f' : Findings} {r r' : Registry}

theorem InputsRead.defaults_eq {xs : List DeclaredInput} {inputs inputs' : Inputs}
    (h : InputsRead scope xs inputs f r inputs' f' r') :
    f'.defaults = Value.merge f.defaults (DeclaredInput.noted xs) := by
  induction h with
  | nil _ _ _ => rfl
  | @cons x rest _ _ _ _ _ _ _ _ _ hfirst _ ih =>
    cases hfirst with
    | mk htyped =>
      rw [ih, htyped.defaults_eq, DeclaredInput.noted, DeclaredInput.noted, filterMap_cons]
      by_cases hnull : x.default = .null
      · rw [hnull]
        rfl
      · rw [Value.putGiven_of_ne hnull, Value.given_of_ne hnull]
        rfl

theorem OutputsRead.defaults_eq {slots : List (String × Value)} {types : List TypeRef}
    (h : OutputsRead scope slots types f r f' r') : f'.defaults = f.defaults := by
  induction h with
  | nil _ _ => rfl
  | cons hfirst _ ih => rw [ih, hfirst.defaults_eq]

end Hinting

theorem exists_declaredInputs {r r₁ : Registry} {modules : Modules} {id stub : String}
    {types : List TypeRef} {findings : Findings}
    (h : Registering.readFor modules info r name id = (.ok ((stub, types), findings), r₁)) :
    ∃ positional hidden, declaredInputs false info = .ok positional ∧
      declaredInputs r.hiddenInputs info = .ok (positional ++ hidden) ∧
      findings.defaults = Value.merge [] (DeclaredInput.noted (positional ++ hidden)) := by
  obtain ⟨declared, inputs, f₁, r₂, _, _, _, _, _, _, -, hdeclared, hinputs, -, htypes, hagain, -⟩ :=
    Hinting.of_run_readNode h
  have hdefaults := hagain.defaults_eq.trans (htypes.defaults_eq.trans hinputs.defaults_eq)
  have hsplit : Hinting.groups r.hiddenInputs =
      Hinting.groups false ++ if r.hiddenInputs then [("hidden", true)] else [] := rfl
  have hdeclared : declaredInputs r.hiddenInputs info = .ok declared := hdeclared
  obtain ⟨all, hall, hflat⟩ := ok_of_bind hdeclared
  obtain rfl := Except.ok.inj hflat
  rw [hsplit, mapM_append] at hall
  obtain ⟨first, hfirst, hall⟩ := ok_of_bind hall
  obtain ⟨last, -, hall⟩ := ok_of_bind hall
  obtain rfl := Except.ok.inj hall
  rw [flatten_append] at hdeclared hdefaults
  exact ⟨first.flatten, last.flatten, by rw [declaredInputs, hfirst]; rfl, hdeclared, hdefaults⟩

/-- The inputs are all declared ones: under the name of each is its argument, or else its default value. -/
def SendsDeclared (declared : List DeclaredInput) (args : List Value) (inputs : List (String × Value)) :
    Prop :=
  (∀ key ∈ inputs.map Prod.fst, key ∈ declared.map DeclaredInput.name) ∧
  ∀ (i : Nat) (x : DeclaredInput) (v : Value), declared[i]? = some x →
    (args[i]?.bind Value.given).or x.default.given = some v → Value.lookup x.name inputs = some v

/-- Inputs that take arguments have names of their own, and no default value of the others comes
under a name with something else. -/
structure NamesApart (positional hidden : List DeclaredInput) : Prop where
  names : (positional.map DeclaredInput.name).Nodup
  others : ∀ y ∈ hidden, y.default ≠ .null → y.name ∉ positional.map DeclaredInput.name
  agree : ∀ y ∈ hidden, ∀ z ∈ hidden, y.name = z.name → y.default ≠ .null → z.default ≠ .null →
    y.default = z.default

variable {positional hidden : List DeclaredInput} {entry : NodeEntry} {inputs : List (String × Value)}

theorem NamesApart.default_eq (h : NamesApart positional hidden) {x y : DeclaredInput}
    (hx : x ∈ positional ++ hidden) (hy : y ∈ positional ++ hidden) (hname : x.name = y.name)
    (hx' : x.default ≠ .null) (hy' : y.default ≠ .null) : x.default = y.default := by
  rcases mem_append.mp hx with hx | hx <;> rcases mem_append.mp hy with hy | hy
  · rw [inj_on_of_nodup_map h.names hx hy hname]
  · exact absurd (hname ▸ mem_map_of_mem hx) (h.others y hy hy')
  · exact absurd (hname ▸ mem_map_of_mem hy) (h.others x hx hx')
  · exact h.agree x hx y hy hname hx' hy'

theorem of_dropNulls {named kept : List (String × Value)} (h : dropNulls named = .ok kept) :
    kept = named.filterMap fun entry => entry.2.given.map fun v => (entry.1, v) := by
  induction named generalizing kept with
  | nil => exact (Except.ok.inj h).symm
  | cons entry rest ih =>
    obtain ⟨name, v⟩ := entry
    rw [filterMap_cons]
    by_cases hv : v = .null
    · subst hv
      exact ih h
    · rw [dropNulls] at h
      · dsimp only at h
        split at h
        · cases h
        · obtain ⟨others, hothers, h⟩ := ok_of_bind h
          cases h
          rw [ih hothers, Value.given_of_ne hv]
          rfl
      · exact hv

theorem nodup_keys_zip {names : List String} (h : names.Nodup) (values : List Value) :
    ((names.zip values).map Prod.fst).Nodup := by
  refine h.sublist ?_
  induction names generalizing values with
  | nil => exact .slnil
  | cons name names ih =>
    cases values with
    | nil => exact nil_sublist _
    | cons v values => exact (ih (nodup_cons.mp h).2 values).cons_cons name

theorem NodeEntry.sent_eq (hinfo : declaredInputs false entry.info = .ok positional)
    (hargs : args.length ≤ positional.length) :
    entry.sent args = (dropNulls (Value.merge [] ((positional.map DeclaredInput.name).zip args))).map
      (Value.merge entry.defaults) := by
  obtain ⟨groups, hgroups, h⟩ := ok_of_bind hinfo
  cases h
  have hbind : NodeInfo.bind entry.info args = _ := NodeInfo.bindGroups_declared hgroups hargs []
  rw [sent, hbind, ok_bind]
  rfl

theorem sendsDeclared_of_apart (h : NamesApart positional hidden)
    (hraw : ∀ x ∈ positional ++ hidden, x.default ≠ .null → Identifier.raw x.name = x.name)
    (hinfo : declaredInputs false entry.info = .ok positional)
    (hdefaults : entry.defaults = Value.merge [] (DeclaredInput.noted (positional ++ hidden)))
    (hargs : args.length ≤ positional.length) (hsent : entry.sent args = .ok inputs) :
    SendsDeclared (positional ++ hidden) args inputs := by
  let named := (positional.map DeclaredInput.name).zip args
  rw [NodeEntry.sent_eq hinfo hargs, Value.merge_eq_append (nodup_keys_zip h.names args)] at hsent
  obtain ⟨kept, hkept, rfl⟩ := ok_of_map hsent
  have hnamed : (named.map Prod.fst).Nodup := nodup_keys_zip h.names args
  have hkept : kept = named.filterMap fun entry => entry.2.given.map fun v => (entry.1, v) :=
    of_dropNulls hkept
  have hlookup (name : String) : Value.lookup name (Value.merge entry.defaults kept) =
      ((Value.lookup name named).bind Value.given).or (Value.lookup name entry.defaults) := by
    rw [Value.lookup_merge _ _ (hkept ▸ nodup_keys_filterMap_given hnamed), hkept,
      lookup_filterMap_given hnamed]
  refine ⟨fun key hkey => ?_, fun i x v hx hv => ?_⟩
  · obtain ⟨⟨k, w⟩, hmem, rfl⟩ := mem_map.mp hkey
    rcases Value.mem_merge hmem with hmem | hmem
    · rw [hdefaults] at hmem
      obtain ⟨x, hx, hne, -, hid⟩ :=
        DeclaredInput.mem_noted.mp ((Value.mem_merge hmem).resolve_left not_mem_nil)
      exact mem_map.mpr ⟨x, hx, (hraw x hx hne).symm.trans hid⟩
    · rw [hkept] at hmem
      obtain ⟨⟨name, a⟩, hnamed, hentry⟩ := mem_filterMap.mp hmem
      obtain ⟨b, -, hb⟩ := map_eq_some_iff.mp hentry
      cases hb
      rw [map_append]
      exact mem_append_left _ (of_mem_zip hnamed).1
  · have hdefault : x.default.given = some v → Value.lookup x.name entry.defaults = some v := by
      intro hgiven
      obtain ⟨hne, rfl⟩ := Value.given_eq_some_iff.mp hgiven
      have hmem := mem_of_getElem? hx
      rw [hdefaults]
      refine Value.lookup_merge_of_forall
        (DeclaredInput.mem_noted.mpr ⟨x, hmem, hne, rfl, hraw x hmem hne⟩) fun w hw => ?_
      obtain ⟨y, hy, hyne, rfl, hid⟩ := DeclaredInput.mem_noted.mp hw
      exact h.default_eq hy hmem ((hraw y hy hyne).symm.trans hid) hyne hne
    rw [hlookup]
    by_cases hi : i < positional.length
    · rw [getElem?_append_left hi] at hx
      rw [Value.lookup_zip h.names (by rw [getElem?_map, hx]; rfl)]
      cases hgiven : args[i]?.bind Value.given with
      | none =>
        rw [hgiven] at hv
        exact hdefault hv
      | some w => rwa [hgiven] at hv
    · -- no argument reaches a hidden input, and none comes under its name
      have hnone : args[i]? = none := getElem?_eq_none (by omega)
      have hgiven : x.default.given = some v := by rwa [hnone] at hv
      rw [getElem?_append_right (by omega)] at hx
      have hnot : x.name ∉ named.map Prod.fst := by
        intro hmem
        obtain ⟨⟨k, w⟩, hmem, rfl⟩ := mem_map.mp hmem
        exact h.others x (mem_of_getElem? hx) (Value.given_eq_some_iff.mp hgiven).1
          (of_mem_zip hmem).1
      rw [Value.lookup_eq_none_iff.mpr hnot]
      exact hdefault hgiven

section Apart

variable (hinfo : declaredInputs false entry.info = .ok positional)
  (hdefaults : entry.defaults = Value.merge [] (DeclaredInput.noted (positional ++ hidden)))
  (h : ∀ args inputs, args.length ≤ positional.length → entry.sent args = .ok inputs →
    SendsDeclared (positional ++ hidden) args inputs)
include hinfo h

theorem default_of_sendsDeclared {x : DeclaredInput} (hx : x ∈ positional ++ hidden)
    (hne : x.default ≠ .null) : Value.lookup x.name entry.defaults = some x.default := by
  have hsent : entry.sent [] = .ok entry.defaults := by
    rw [NodeEntry.sent_eq hinfo (Nat.zero_le _), zip_nil_right]
    rfl
  obtain ⟨i, hi⟩ := getElem?_of_mem hx
  exact (h [] _ (Nat.zero_le _) hsent).2 i x x.default hi (Value.given_of_ne hne)

/-- Numbers, counted from any start, are sent as arguments. -/
theorem counted_of_sendsDeclared (k : Nat) : ∃ inputs,
    (∀ (i : Nat) (x : DeclaredInput), positional[i]? = some x →
      Value.lookup x.name inputs = some (.int (i + k : Nat))) ∧
    ∀ y ∈ hidden, y.default ≠ .null → Value.lookup y.name inputs = some y.default := by
  let args : List Value := (List.range positional.length).map fun i => .int (i + k : Nat)
  have hargs : args.length ≤ positional.length := by simp [args]
  have hsent : ∃ inputs, entry.sent args = .ok inputs := by
    rw [NodeEntry.sent_eq hinfo hargs, dropNulls_eq]
    · exact ⟨_, rfl⟩
    · intro named hnamed
      have hzip := (Value.mem_merge hnamed).resolve_left not_mem_nil
      obtain ⟨i, -, hi⟩ := mem_map.mp (of_mem_zip hzip).2
      rw [← hi]
      rfl
  obtain ⟨inputs, hsent⟩ := hsent
  have hdeclared := (h args inputs hargs hsent).2
  refine ⟨inputs, fun i x hx => ?_, fun y hy hne => ?_⟩
  · have hi : i < positional.length := (List.getElem?_eq_some_iff.mp hx).1
    refine hdeclared i x _ ((getElem?_append_left hi).trans hx) ?_
    simp [args, hi, Value.given]
  · obtain ⟨j, hj⟩ := getElem?_of_mem hy
    refine hdeclared (positional.length + j) y _ ?_ ?_
    · rw [getElem?_append_right (Nat.le_add_right _ _), Nat.add_sub_cancel_left, hj]
    · simp [args, Value.given_of_ne hne]

theorem namesApart_of_sendsDeclared : NamesApart positional hidden where
  names := by
    obtain ⟨inputs, hfound, -⟩ := counted_of_sendsDeclared hinfo h 0
    refine nodup_iff_getElem?_ne_getElem?.mpr fun i j hij hj heq => ?_
    rw [length_map] at hj
    have hxi := getElem?_eq_getElem (Nat.lt_trans hij hj)
    have hxj := getElem?_eq_getElem hj
    rw [getElem?_map, getElem?_map, hxi, hxj] at heq
    have hi := hfound i _ hxi
    rw [some.inj heq, hfound j _ hxj] at hi
    have hnumbers : ((j + 0 : Nat) : Int) = (i + 0 : Nat) := Value.int.inj (some.inj hi)
    omega
  others := by
    intro y hy hne hmem
    obtain ⟨x, hx, hname⟩ := mem_map.mp hmem
    obtain ⟨i, hi⟩ := getElem?_of_mem hx
    have hvalue (k : Nat) : y.default = .int (i + k : Nat) := by
      obtain ⟨inputs, hfound, hothers⟩ := counted_of_sendsDeclared hinfo h k
      have hdefault := hothers y hy hne
      rw [← hname, hfound i x hi] at hdefault
      exact (some.inj hdefault).symm
    -- two counts would give it two values
    have hnumbers : ((i + 0 : Nat) : Int) = (i + 1 : Nat) :=
      Value.int.inj ((hvalue 0).symm.trans (hvalue 1))
    omega
  agree := by
    intro y hy z hz hname hyne hzne
    have hy := default_of_sendsDeclared hinfo h (mem_append_right _ hy) hyne
    rw [hname, default_of_sendsDeclared hinfo h (mem_append_right _ hz) hzne] at hy
    exact (some.inj hy).symm

include hdefaults

theorem apart_of_sendsDeclared : NamesApart positional hidden ∧
    ∀ x ∈ positional ++ hidden, x.default ≠ .null → Identifier.raw x.name = x.name := by
  refine ⟨namesApart_of_sendsDeclared hinfo h, fun x hx hne => ?_⟩
  have hmem : x.name ∈ entry.defaults.map Prod.fst := by
    by_contra hnot
    cases (Value.lookup_eq_none_iff.mpr hnot).symm.trans (default_of_sendsDeclared hinfo h hx hne)
  obtain ⟨⟨key, v⟩, hmem, hkey⟩ := mem_map.mp hmem
  rw [hdefaults] at hmem
  obtain ⟨z, -, -, -, hid⟩ :=
    DeclaredInput.mem_noted.mp ((Value.mem_merge hmem).resolve_left not_mem_nil)
  rw [← hkey, ← hid, Identifier.raw_raw]

end Apart

/-- A node that is added to a registry is called with arguments for the required and optional inputs
of its description, and what a call leaves remembers what is sent. That is what the description
declares, an argument or else a default value for each input and no other, in every call, exactly if
the names of the inputs are apart and those of inputs with default values are identifiers. -/
theorem sendsDeclared_iff {r r' : Registry} {modules : Modules}
    {make : NodeEntry → Except Fault (Option String)} {id : String}
    (hname : Registering.named info = .ok name) (hnew : r.resolve name = .inr id)
    (hadd : (Registering.addNode modules make info).run r = (.ok (), r')) :
    ∃ entry positional hidden, Table.find? name r'.nodes = some entry ∧
      declaredInputs false info = .ok positional ∧
      declaredInputs r.hiddenInputs info = .ok (positional ++ hidden) ∧
      (∀ (κ : Type) (packs : Bool) (args : List Value) (s s' : Session κ) (v : Value),
        (SessionM.callNode ⟨entry, packs⟩ args []).run s = (.ok v, s') →
        ∃ inputs, entry.sent args = .ok inputs ∧ LeftBy inputs v) ∧
      ((∀ args inputs, args.length ≤ positional.length → entry.sent args = .ok inputs →
          SendsDeclared (positional ++ hidden) args inputs) ↔
        NamesApart positional hidden ∧
          ∀ x ∈ positional ++ hidden, x.default ≠ .null → Identifier.raw x.name = x.name) := by
  obtain ⟨stub, types, findings, className, r₁, hread, rfl⟩ := Registering.made_of_run_ok hname hnew hadd
  obtain ⟨positional, hidden, hpositional, hdeclared, hdefaults⟩ := exists_declaredInputs hread
  refine ⟨Registering.entryOf info types findings, positional, hidden, Table.find?_put_self _ _ _,
    hpositional, hdeclared, fun κ packs args s s' v h => SessionM.leftBy_callNode h, ?_⟩
  refine ⟨apart_of_sendsDeclared hpositional hdefaults, fun h args inputs hargs hsent => ?_⟩
  exact sendsDeclared_of_apart h.1 h.2 hpositional hdefaults hargs hsent

def pickInfo : Value :=
  .dict [("name", .str "Pick"), ("display_name", .str "Pick"), ("description", .str ""),
    ("category", .str "c"), ("output_node", .bool false), ("output", .list [.str "INT"]),
    ("output_name", .list [.str "INT"]), ("input", .dict [("required", .dict [
      ("Select to add LoRA", .list [.list [.str "a", .str "b"]]),
      ("seed", .list [.str "INT", .dict [("default", .int 1)]])])])]

/-- Not every call of the node sends what it declares. -/
theorem sendsDeclared_iff_pick :
    ∃ r' entry declared, Registering.named pickInfo = .ok "Pick" ∧
      (Registry.empty true 2000 false).resolve "Pick" = .inr "Pick" ∧
      (Registering.addNode .none (fun _ => .ok none) pickInfo).run (.empty true 2000 false) = (.ok (), r') ∧
      Table.find? "Pick" r'.nodes = some entry ∧ declaredInputs true pickInfo = .ok declared ∧
      ∃ args inputs, entry.sent args = .ok inputs ∧ ¬SendsDeclared declared args inputs := by
  have hname : Registering.named pickInfo = .ok "Pick" := rfl
  have hnew : (Registry.empty true 2000 false).resolve "Pick" = .inr "Pick" :=
    Sum.getRight?_eq_some_iff.mp (by decide +kernel)
  have hok : ((Registering.addNode .none (fun _ => .ok none) pickInfo).run
      (.empty true 2000 false)).1.isOk = true := by
    decide +kernel
  cases hadd : (Registering.addNode .none (fun _ => .ok none) pickInfo).run (.empty true 2000 false) with
  | mk result r' =>
    rw [hadd] at hok
    cases result with
    | error e => cases hok
    | ok _ =>
      obtain ⟨entry, positional, hidden, hentry, -, hdeclared, -, hiff⟩ := sendsDeclared_iff hname hnew hadd
      refine ⟨r', entry, positional ++ hidden, hname, hnew, rfl, hentry, hdeclared, ?_⟩
      by_contra hnone
      simp only [not_exists, not_and, not_not] at hnone
      obtain ⟨-, hraw⟩ := hiff.mp fun args inputs _ hsent => hnone args inputs hsent
      rw [← Except.ok.inj hdeclared] at hraw
      have hdefault : DeclaredInput.default ⟨"Select to add LoRA",
          .list [.list [.str "a", .str "b"]], false⟩ = .str "a" := rfl
      exact absurd (hraw _ List.mem_cons_self fun h => Value.noConfusion (hdefault.symm.trans h))
        (by decide +kernel)

end Flowscript
