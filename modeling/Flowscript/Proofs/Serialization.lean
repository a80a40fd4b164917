import Flowscript.Prompt
import Flowscript.Proofs.Runs
import Flowscript.Proofs.Table

/-!
# Prompts list the calls of a graph

Outputs that share calls make a graph: the inputs of a call are outputs of other calls. The prompt
of an output lists every call that it is reached from once, each after the calls that its inputs
come from, under keys that tell the type of the call and its number among the calls of that type.
-/

namespace Flowscript.Prompt

open List

/-- The second value is an output that the first is, or that its inputs lead to. -/
inductive Reaches : Value → Value → Prop
  | refl (v : Value) : Reaches v v
  | step {object : Nat} {typeName : String} {info : Value} {call : Nat} {type : Value}
      {inputs : List (String × Value)} {slot : Option Nat} {name : String} {v w : Value} :
      (name, v) ∈ inputs → Reaches v w →
        Reaches (.output object typeName info call type inputs slot) w

/-- A call of the graph of a value, with the description, type and inputs that one of its outputs
gives it. -/
def HasCall (root info : Value) (call : Nat) (type : Value) (inputs : List (String × Value)) :
    Prop :=
  ∃ object typeName slot, Reaches root (.output object typeName info call type inputs slot)

/-- The calls of a value make a graph: two outputs of one call agree on its type and its inputs,
and the type of a call is a name. -/
structure IsGraph (root : Value) : Prop where
  agrees : ∀ {info info' : Value} {call : Nat} {type type' : Value}
    {inputs inputs' : List (String × Value)}, HasCall root info call type inputs →
      HasCall root info' call type' inputs' → type = type' ∧ inputs = inputs'
  named : ∀ {info : Value} {call : Nat} {type : Value} {inputs : List (String × Value)},
    HasCall root info call type inputs → ∃ t, type = .str t

def Sendable (root : Value) : Prop :=
  ∀ {info : Value} {call : Nat} {type : Value} {inputs : List (String × Value)},
    HasCall root info call type inputs → ∀ {name : String} {b : Bool},
      (name, .bool b) ∈ inputs → ∃ v, writeBool info name b = .ok v

/-- How an input is sent: an output by an earlier key and its slot, a truth value by what its
declared type has for it, and any other value as it is. -/
inductive Written (ids : IdTable) (earlier : List String) (info : Value) :
    String × Value → String × Value → Prop
  | link {name key typeName : String} {object call : Nat} {info' type : Value}
      {inputs : List (String × Value)} {slot : Option Nat} :
      ids.id? call = some key → key ∈ earlier →
        Written ids earlier info (name, .output object typeName info' call type inputs slot)
          (name, .list [.str key, slotValue slot])
  | truth {name : String} {b : Bool} {v : Value} :
      writeBool info name b = .ok v → Written ids earlier info (name, .bool b) (name, v)
  | plain {name : String} {v : Value} :
      (∀ b, v ≠ .bool b) →
      (∀ object typeName info' call type inputs slot,
        v ≠ .output object typeName info' call type inputs slot) →
        Written ids earlier info (name, v) (name, v)

def entryOf (inputs : List (String × Value)) (type : Value) : Value :=
  .dict [("inputs", .dict inputs), ("class_type", type)]

def isOfType (t : String) : Value → Bool
  | .dict fields => match Value.lookup "class_type" fields with
    | some (.str u) => u == t
    | _ => false
  | _ => false

def keysOfType (t : String) (entries : List (String × Value)) : List String :=
  (entries.filter fun (_, entry) => isOfType t entry).map Prod.fst

def keyOf (t : String) (n : Nat) : String := t ++ "." ++ Value.intText n

def keys (p : Prompt) : List String := p.entries.map Prod.fst

/-- A prompt lists calls of a graph soundly: ids and keys belong together, the keys of a type are
numbered in order, and each entry is that of a call whose inputs come from earlier entries. -/
structure Sound (root : Value) (p : Prompt) : Prop where
  keys_nodup : p.keys.Nodup
  id_iff_call : ∀ call key, p.ids.id? call = some key ↔ p.ids.call? key = some call
  key_iff_id : ∀ key, key ∈ p.keys ↔ ∃ call, p.ids.id? call = some key
  numbered : ∀ t, keysOfType t p.entries =
    (List.range ((Table.find? (Value.str t) p.ids.counts).getD 0)).map (keyOf t)
  written : ∀ earlier key entry later, p.entries = earlier ++ (key, entry) :: later →
    ∃ info call type inputs sent, p.ids.id? call = some key ∧
      HasCall root info call type inputs ∧ entry = entryOf sent type ∧
      List.Forall₂ (Written p.ids (earlier.map Prod.fst) info) inputs sent

/-- A prompt lists the graph of an output whose own call is given. -/
structure Serializes (root : Value) (own : Nat) (p : Prompt) : Prop where
  keys_nodup : p.keys.Nodup
  /-- The calls with an id are those of the graph. -/
  hasCall_iff : ∀ call, (∃ info type inputs, HasCall root info call type inputs) ↔
    ∃ key, p.ids.id? call = some key
  /-- There is an entry for each id, and no other. -/
  key_iff : ∀ key, key ∈ p.keys ↔ ∃ call, p.ids.id? call = some key
  /-- Ids and calls are inverse to each other. -/
  id_iff_call : ∀ call key, p.ids.id? call = some key ↔ p.ids.call? key = some call
  /-- The keys of a type are numbered from zero, in order. -/
  numbered : ∀ t, keysOfType t p.entries =
    (List.range (keysOfType t p.entries).length).map (keyOf t)
  /-- Each entry is that of a call, whose inputs are sent by keys of earlier entries. -/
  written : ∀ earlier key entry later, p.entries = earlier ++ (key, entry) :: later →
    ∃ info call type inputs sent, p.ids.id? call = some key ∧
      HasCall root info call type inputs ∧ entry = entryOf sent type ∧
      List.Forall₂ (Written p.ids (earlier.map Prod.fst) info) inputs sent
  /-- The entry of the output's own call comes last. -/
  last : ∃ earlier key entry, p.entries = earlier ++ [(key, entry)] ∧ p.ids.id? own = some key

/-- A later prompt that keeps the entries and ids of an earlier one. -/
structure Extends (p p' : Prompt) : Prop where
  entries : ∃ added, p'.entries = p.entries ++ added
  ids : ∀ {call key}, p.ids.id? call = some key → p'.ids.id? call = some key

section Keys

theorem toList_keyOf (t : String) (n : Nat) :
    (keyOf t n).toList = t.toList ++ '.' :: (Value.intText n).toList := by
  simp [keyOf]

theorem dot_not_mem_intText (n : Nat) : '.' ∉ (Value.intText n).toList := by
  intro h
  have := Value.isDigit_of_mem_intText h
  simp [Char.isDigit] at this

/-- A key tells the type and the number: what follows its last dot is the number, also where the
type has dots and digits of its own. -/
theorem keyOf_injective {t u : String} {m n : Nat} (h : keyOf t m = keyOf u n) :
    t = u ∧ m = n := by
  have hl := congrArg String.toList h
  rw [toList_keyOf, toList_keyOf] at hl
  obtain ⟨as, hu, hd⟩ | ⟨as, ht, hd⟩ := append_eq_append_iff.mp hl
  · cases as with
    | nil =>
      have hn : (Value.intText m).toList = (Value.intText n).toList := by simpa using hd
      exact ⟨String.toList_injective (by simpa using hu.symm),
        Value.intText_injective (String.toList_injective hn)⟩
    | cons c as =>
      have hm : (Value.intText m).toList = as ++ '.' :: (Value.intText n).toList := by
        simpa using (cons.inj hd).2
      exact absurd (by simp [hm]) (dot_not_mem_intText m)
  · cases as with
    | nil =>
      have hn : (Value.intText n).toList = (Value.intText m).toList := by simpa using hd
      exact ⟨String.toList_injective (by simpa using ht),
        Value.intText_injective (String.toList_injective hn.symm)⟩
    | cons c as =>
      have hn : (Value.intText n).toList = as ++ '.' :: (Value.intText m).toList := by
        simpa using (cons.inj hd).2
      exact absurd (by simp [hn]) (dot_not_mem_intText n)

end Keys

end Flowscript.Prompt

namespace Flowscript.IdTable

def count (ids : IdTable) (t : String) : Nat := (Table.find? (Value.str t) ids.counts).getD 0

def assigned (ids : IdTable) (call : Nat) (t : String) : IdTable :=
  ⟨Table.put (.str t) (ids.count t + 1) ids.counts,
    Table.put call (Prompt.keyOf t (ids.count t)) ids.ids,
    Table.put (Prompt.keyOf t (ids.count t)) (call, .str t) ids.calls⟩

theorem assign_str (ids : IdTable) (call : Nat) (t : String) :
    ids.assign call (.str t) = .ok (Prompt.keyOf t (ids.count t), ids.assigned call t) := rfl

theorem id?_assigned (ids : IdTable) (call : Nat) (t : String) (c : Nat) :
    (ids.assigned call t).id? c =
      if call = c then some (Prompt.keyOf t (ids.count t)) else ids.id? c :=
  Table.find?_put _ _ _ _

theorem call?_assigned (ids : IdTable) (call : Nat) (t key : String) :
    (ids.assigned call t).call? key =
      if Prompt.keyOf t (ids.count t) = key then some call else ids.call? key := by
  unfold call? assigned
  rw [Table.find?_put]
  split <;> rfl

theorem count_assigned (ids : IdTable) (call : Nat) (t u : String) :
    (ids.assigned call t).count u = if t = u then ids.count t + 1 else ids.count u := by
  unfold count assigned
  rw [Value.find?_put_str]
  by_cases h : t = u <;> simp [h, count]

end Flowscript.IdTable

namespace Flowscript.Prompt

open List

section Graph

variable {root : Value} {info type v : Value} {call : Nat} {inputs : List (String × Value)}

theorem Reaches.trans {u w : Value} (huv : Reaches u v) (hvw : Reaches v w) : Reaches u w := by
  induction huv with
  | refl => exact hvw
  | step hmem _ ih => exact .step hmem (ih hvw)

theorem sizeOf_input_lt {object : Nat} {typeName : String} {slot : Option Nat} {name : String}
    (h : (name, v) ∈ inputs) :
    sizeOf v < sizeOf (Value.output object typeName info call type inputs slot) := by
  have hlt := sizeOf_lt_of_mem h
  simp only [Prod.mk.sizeOf_spec] at hlt
  simp only [Value.output.sizeOf_spec]
  omega

theorem Reaches.sizeOf_le {w : Value} (h : Reaches v w) : sizeOf w ≤ sizeOf v := by
  induction h with
  | refl => exact Nat.le_refl _
  | step hmem _ ih => exact Nat.le_trans ih (Nat.le_of_lt (sizeOf_input_lt hmem))

theorem hasCall_output {object : Nat} {typeName : String} {info' : Value} {own : Nat} {type' : Value}
    {inputs' : List (String × Value)} {slot : Option Nat} :
    HasCall (.output object typeName info own type inputs slot) info' call type' inputs' ↔
      (info' = info ∧ call = own ∧ type' = type ∧ inputs' = inputs) ∨
        ∃ input ∈ inputs, HasCall input.2 info' call type' inputs' := by
  constructor
  · rintro ⟨object', typeName', slot', hr⟩
    cases hr with
    | refl => exact .inl ⟨rfl, rfl, rfl, rfl⟩
    | step hmem hr => exact .inr ⟨_, hmem, object', typeName', slot', hr⟩
  · rintro (⟨rfl, rfl, rfl, rfl⟩ | ⟨⟨name, v⟩, hmem, object', typeName', slot', hr⟩)
    · exact ⟨_, _, _, .refl _⟩
    · exact ⟨object', typeName', slot', .step hmem hr⟩

theorem not_hasCall
    (hv : ∀ object typeName info call type inputs slot,
    v ≠ .output object typeName info call type inputs slot)
    : ¬HasCall v info call type inputs := by
  rintro ⟨object, typeName, slot, hr⟩
  cases hr with
  | refl => exact hv _ _ _ _ _ _ _ rfl
  | step => exact hv _ _ _ _ _ _ _ rfl

theorem IsGraph.acyclic (hg : IsGraph root) {info' : Value} {type' : Value}
    {inputs' : List (String × Value)} (hc : HasCall root info call type inputs) {name : String}
    (hv : (name, v) ∈ inputs) :
    ¬HasCall v info' call type' inputs' := by
  rintro ⟨object', typeName', slot', hr'⟩
  obtain ⟨object, typeName, slot, hr⟩ := hc
  have hroot := hr.trans (.step hv hr')
  obtain ⟨-, rfl⟩ := hg.agrees ⟨_, _, _, hr⟩ ⟨_, _, _, hroot⟩
  have hle := hr'.sizeOf_le
  have hlt : sizeOf v < sizeOf (Value.output object' typeName' info' call type' inputs slot') :=
    sizeOf_input_lt hv
  omega

end Graph

section Soundness

variable {root : Value} {p p' : Prompt} {info : Value} {call : Nat} {key : String}
  {inputs : List (String × Value)}

theorem Extends.refl (p : Prompt) : Extends p p := ⟨⟨[], by simp⟩, id⟩

theorem Extends.trans {p'' : Prompt} (h : Extends p p') (h' : Extends p' p'') : Extends p p'' := by
  obtain ⟨added, hadded⟩ := h.entries
  obtain ⟨added', hadded'⟩ := h'.entries
  exact ⟨⟨added ++ added', by rw [hadded', hadded, append_assoc]⟩, fun hid => h'.ids (h.ids hid)⟩

theorem Extends.keys_subset (h : Extends p p') : p.keys ⊆ p'.keys := by
  obtain ⟨added, hadded⟩ := h.entries
  intro key hkey
  simp only [keys, hadded, map_append, mem_append]
  exact .inl hkey

theorem Written.mono {ids ids' : IdTable} {earlier earlier' : List String} {input sent : String × Value}
    (h : Written ids earlier info input sent)
    (hids : ∀ {call key}, ids.id? call = some key → ids'.id? call = some key) (hsub : earlier ⊆ earlier') :
    Written ids' earlier' info input sent := by
  cases h with
  | link hid hmem => exact .link (hids hid) (hsub hmem)
  | truth hb => exact .truth hb
  | plain hb ho => exact .plain hb ho

@[simp]
theorem isOfType_entryOf (t u : String) (sent : List (String × Value)) :
    isOfType t (entryOf sent (.str u)) = (u == t) := by
  simp [isOfType, entryOf, Value.lookup]

theorem Sound.empty : Sound root empty where
  keys_nodup := nodup_nil
  id_iff_call := by simp [Prompt.empty, IdTable.empty, IdTable.id?, IdTable.call?]
  key_iff_id := by simp [keys, Prompt.empty, IdTable.empty, IdTable.id?]
  numbered := by simp [keysOfType, Prompt.empty, IdTable.empty]
  written := by simp [Prompt.empty]

theorem Sound.call_unique (hs : Sound root p) {call' : Nat} (h : p.ids.id? call = some key)
    (h' : p.ids.id? call' = some key) : call = call' := by
  rw [hs.id_iff_call] at h h'
  exact Option.some.inj (h.symm.trans h')

theorem Sound.written_of_id (hs : Sound root p) (hg : IsGraph root) {type : Value}
    (hid : p.ids.id? call = some key) (hc : HasCall root info call type inputs) :
    ∃ info' earlier sent later, p.entries = earlier ++ (key, entryOf sent type) :: later ∧
      List.Forall₂ (Written p.ids (earlier.map Prod.fst) info') inputs sent := by
  have hkey : key ∈ p.keys := (hs.key_iff_id key).2 ⟨call, hid⟩
  obtain ⟨⟨k, entry⟩, hmem, rfl⟩ := mem_map.1 hkey
  obtain ⟨earlier, later, hsplit⟩ := append_of_mem hmem
  obtain ⟨info', call', type', inputs', sent, hid', hc', rfl, hw⟩ :=
    hs.written _ _ _ _ hsplit
  obtain rfl := hs.call_unique hid hid'
  obtain ⟨rfl, rfl⟩ := hg.agrees hc hc'
  exact ⟨info', earlier, sent, later, hsplit, hw⟩

theorem Sound.exists_keyOf (hs : Sound root p) (hg : IsGraph root) (h : key ∈ p.keys) :
    ∃ t n, key = keyOf t n ∧ n < p.ids.count t := by
  obtain ⟨⟨k, entry⟩, hmem, rfl⟩ := mem_map.1 h
  obtain ⟨earlier, later, hsplit⟩ := append_of_mem hmem
  obtain ⟨info, call, type, inputs, sent, -, hc, rfl, -⟩ := hs.written _ _ _ _ hsplit
  obtain ⟨t, rfl⟩ := hg.named hc
  have hk : k ∈ keysOfType t p.entries :=
    mem_map.2 ⟨_, mem_filter.2 ⟨hmem, by simp⟩, rfl⟩
  rw [hs.numbered t] at hk
  obtain ⟨n, hn, rfl⟩ := mem_map.1 hk
  exact ⟨t, n, rfl, mem_range.1 hn⟩

theorem Sound.id_of_reaches (hs : Sound root p) (hg : IsGraph root) {v w : Value} (hr : Reaches v w)
    (hv : Reaches root v) {object : Nat} {typeName : String} {type : Value} {slot : Option Nat}
    (hw : w = .output object typeName info call type inputs slot)
    (hid : ∀ object typeName info call type inputs slot,
      v = .output object typeName info call type inputs slot → ∃ key, p.ids.id? call = some key) :
    ∃ key, p.ids.id? call = some key := by
  induction hr with
  | refl => exact hid _ _ _ _ _ _ _ hw
  | step hmem hr ih =>
    refine ih (hv.trans (.step hmem (.refl _))) hw ?_
    rintro object' typeName' info' call' type' inputs' slot' rfl
    obtain ⟨key, hkey⟩ := hid _ _ _ _ _ _ _ rfl
    obtain ⟨_, _, _, _, -, hsent⟩ := hs.written_of_id hg hkey ⟨_, _, _, hv⟩
    obtain ⟨_, -, hwritten⟩ := exists_mem_of_forall₂ hsent hmem
    cases hwritten with
    | link hid' _ => exact ⟨_, hid'⟩
    | plain _ ho => exact absurd rfl (ho _ _ _ _ _ _ _)

theorem keyOf_not_mem (h : ∀ key ∈ p.keys, ∃ t n, key = keyOf t n ∧ n < p.ids.count t) (t : String) :
    keyOf t (p.ids.count t) ∉ p.keys := by
  intro hmem
  obtain ⟨u, n, hkey, hn⟩ := h _ hmem
  obtain ⟨rfl, rfl⟩ := keyOf_injective hkey
  exact Nat.lt_irrefl _ hn

/-- The entry of a call with a new id comes last. -/
theorem put_keyOf (h : ∀ key ∈ p.keys, ∃ t n, key = keyOf t n ∧ n < p.ids.count t) (t : String)
    (entry : Value) : Value.put (keyOf t (p.ids.count t)) entry p.entries =
      p.entries ++ [(keyOf t (p.ids.count t), entry)] := by
  rw [Value.put_eq_tablePut]
  exact Table.put_eq_append (keyOf_not_mem h t) entry

theorem keysOfType_append (t u : String) (entries : List (String × Value)) (sent : List (String × Value)) :
    keysOfType u (entries ++ [(key, entryOf sent (.str t))]) =
      keysOfType u entries ++ if t = u then [key] else [] := by
  by_cases hu : t = u <;> simp [keysOfType, hu]

theorem id?_assigned_iff {t : String} (hnone : p.ids.id? call = none) (c : Nat) (k : String) :
    (p.ids.assigned call t).id? c = some k ↔
      c = call ∧ k = keyOf t (p.ids.count t) ∨ p.ids.id? c = some k := by
  rw [IdTable.id?_assigned]
  by_cases hcall : call = c
  · subst hcall
    simp [hnone, eq_comm]
  · simp [hcall, Ne.symm hcall]

theorem Sound.written_append (hs : Sound root p) {ids : IdTable} {type : Value}
    {sent : List (String × Value)}
    (hids : ∀ {call key}, p.ids.id? call = some key → ids.id? call = some key)
    (hid : ids.id? call = some key) (hc : HasCall root info call type inputs)
    (hw : List.Forall₂ (Written p.ids p.keys info) inputs sent) (earlier : List (String × Value))
    (key' : String) (entry : Value) (later : List (String × Value))
    (hsplit : p.entries ++ [(key, entryOf sent type)] = earlier ++ (key', entry) :: later) :
    ∃ info call type inputs sent, ids.id? call = some key' ∧
      HasCall root info call type inputs ∧ entry = entryOf sent type ∧
      List.Forall₂ (Written ids (earlier.map Prod.fst) info) inputs sent := by
  obtain rfl | ⟨later', last, rfl⟩ := eq_nil_or_concat later
  · obtain ⟨rfl, hlast⟩ := append_inj' hsplit rfl
    simp only [cons.injEq, Prod.mk.injEq, and_true] at hlast
    obtain ⟨rfl, rfl⟩ := hlast
    exact ⟨info, call, type, inputs, sent, hid, hc, rfl,
      hw.imp fun _ _ h => h.mono hids (List.Subset.refl _)⟩
  · rw [concat_eq_append, ← cons_append, ← append_assoc] at hsplit
    obtain ⟨hentries, -⟩ := append_inj' hsplit rfl
    obtain ⟨info', call', type', inputs', sent', hid', hc', hentry, hw'⟩ :=
      hs.written _ _ _ _ hentries
    exact ⟨info', call', type', inputs', sent', hids hid', hc', hentry,
      hw'.imp fun _ _ h => h.mono hids (List.Subset.refl _)⟩

theorem Sound.assigned (hs : Sound root p) (hg : IsGraph root) {t : String} {sent : List (String × Value)}
    (hc : HasCall root info call (.str t) inputs) (hnone : p.ids.id? call = none)
    (hw : List.Forall₂ (Written p.ids p.keys info) inputs sent) :
    Sound root ⟨p.entries ++ [(keyOf t (p.ids.count t), entryOf sent (.str t))],
      p.ids.assigned call t⟩ := by
  have hnew := keyOf_not_mem (fun _ => hs.exists_keyOf hg) t
  have hid := id?_assigned_iff (t := t) hnone
  have hkeys (entry : Value) (ids : IdTable) :
      keys ⟨p.entries ++ [(keyOf t (p.ids.count t), entry)], ids⟩ = p.keys ++ [keyOf t (p.ids.count t)] :=
    map_append
  constructor
  case keys_nodup =>
    rw [hkeys]
    exact hs.keys_nodup.append (nodup_singleton _) (by simpa using hnew)
  case id_iff_call =>
    intro c k
    rw [hid, IdTable.call?_assigned]
    by_cases hk : keyOf t (p.ids.count t) = k
    · subst hk
      have hnot : p.ids.id? c ≠ some (keyOf t (p.ids.count t)) :=
        fun h => hnew ((hs.key_iff_id _).2 ⟨c, h⟩)
      simp [hnot, eq_comm]
    · simp [hk, Ne.symm hk, hs.id_iff_call]
  case key_iff_id =>
    intro k
    simp only [hkeys, mem_append, mem_singleton, hid, hs.key_iff_id k, exists_or, exists_eq_left, or_comm]
  case numbered =>
    intro u
    have hcount : (Table.find? (Value.str u) (p.ids.assigned call t).counts).getD 0 = _ :=
      IdTable.count_assigned p.ids call t u
    rw [keysOfType_append, hs.numbered u, hcount]
    by_cases hu : t = u
    · subst hu
      simp [range_succ, IdTable.count]
    · simp [hu, IdTable.count]
  case written =>
    exact hs.written_append (fun h => (hid _ _).2 (.inr h)) ((hid _ _).2 (.inl ⟨rfl, rfl⟩)) hc hw

end Soundness

section Writing

variable {root : Value} {p p' p'' : Prompt} {call object : Nat} {typeName : String} {info type : Value}
  {inputs : List (String × Value)} {slot : Option Nat}

def CallOf (v : Value) (call : Nat) : Prop := ∃ info type inputs, HasCall v info call type inputs

def CallOfInput (inputs : List (String × Value)) (call : Nat) : Prop :=
  ∃ input ∈ inputs, CallOf input.2 call

/-- A sound prompt becomes a sound one that has ids for the given calls too, and for no others. -/
structure Adds (root : Value) (calls : Nat → Prop) (p p' : Prompt) : Prop where
  sound : Sound root p'
  later : Extends p p'
  given : ∀ {call}, calls call → ∃ key, p'.ids.id? call = some key
  only : ∀ {call key}, p'.ids.id? call = some key → p.ids.id? call = some key ∨ calls call

theorem Adds.none (hs : Sound root p) {calls : Nat → Prop}
    (h : ∀ {call}, calls call → ∃ key, p.ids.id? call = some key) : Adds root calls p p :=
  ⟨hs, .refl p, h, .inl⟩

theorem Adds.trans {calls calls' all : Nat → Prop} (h : Adds root calls p p')
    (h' : Adds root calls' p' p'') (hall : ∀ call, all call ↔ calls call ∨ calls' call) :
    Adds root all p p'' where
  sound := h'.sound
  later := h.later.trans h'.later
  given := by
    intro call hcall
    obtain hcall | hcall := (hall call).1 hcall
    · obtain ⟨key, hkey⟩ := h.given hcall
      exact ⟨key, h'.later.ids hkey⟩
    · exact h'.given hcall
  only := by
    intro call key hkey
    obtain hkey | hcall := h'.only hkey
    · obtain hkey | hcall := h.only hkey
      · exact .inl hkey
      · exact .inr ((hall call).2 (.inl hcall))
    · exact .inr ((hall call).2 (.inr hcall))

theorem callOfInput_cons {input : String × Value} {rest : List (String × Value)} (call : Nat) :
    CallOfInput (input :: rest) call ↔ CallOf input.2 call ∨ CallOfInput rest call := by
  simp [CallOfInput]

theorem callOf_output {own : Nat} (call : Nat) :
    CallOf (.output object typeName info own type inputs slot) call ↔
      call = own ∨ CallOfInput inputs call := by
  constructor
  · rintro ⟨info', type', inputs', hc⟩
    obtain ⟨-, rfl, -, -⟩ | ⟨input, hmem, hc⟩ := hasCall_output.1 hc
    · exact .inl rfl
    · exact .inr ⟨input, hmem, info', type', inputs', hc⟩
  · rintro (rfl | ⟨input, hmem, info', type', inputs', hc⟩)
    · exact ⟨info, type, inputs, hasCall_output.2 (.inl ⟨rfl, rfl, rfl, rfl⟩)⟩
    · exact ⟨info', type', inputs', hasCall_output.2 (.inr ⟨input, hmem, hc⟩)⟩

theorem not_callOf {v : Value} (hv : ∀ object typeName info call type inputs slot,
    v ≠ .output object typeName info call type inputs slot) (call : Nat) : ¬CallOf v call := by
  rintro ⟨info, type, inputs, hc⟩
  exact not_hasCall hv hc

/-- Writing a value of the graph succeeds, keeps the prompt sound and adds the calls of the value.
A new call of an output is added last. -/
def WriteSound (root v : Value) (p : Prompt) : Prop :=
  Reaches root v → Sound root p → ∃ w p', write v p = .ok (w, p') ∧ Adds root (CallOf v) p p' ∧
    ((∀ b, v ≠ .bool b) → ∀ info name, Written p'.ids p'.keys info (name, v) (name, w)) ∧
    ∀ {object typeName info call type inputs slot},
      v = .output object typeName info call type inputs slot → p.ids.id? call = none →
        ∃ earlier key entry, p'.entries = earlier ++ [(key, entry)] ∧ p'.ids.id? call = some key

def WriteInputsSound (root info : Value) (inputs : List (String × Value)) (p : Prompt) : Prop :=
  (∀ input ∈ inputs, Reaches root input.2) →
    (∀ name b, (name, .bool b) ∈ inputs → ∃ v, writeBool info name b = .ok v) → Sound root p →
      ∃ sent p', writeInputs info inputs p = .ok (sent, p') ∧
        Adds root (CallOfInput inputs) p p' ∧
        List.Forall₂ (Written p'.ids p'.keys info) inputs sent

def WriteInputSound (root info : Value) (input : String × Value) (p : Prompt) : Prop :=
  Reaches root input.2 → (∀ b, input.2 = .bool b → ∃ v, writeBool info input.1 b = .ok v) →
    Sound root p → ∃ sent p', writeInput info input p = .ok (sent, p') ∧
      Adds root (CallOf input.2) p p' ∧ Written p'.ids p'.keys info input sent

theorem writeSound_known (hg : IsGraph root) {id : String} (hid : p.ids.id? call = some id) :
    WriteSound root (.output object typeName info call type inputs slot) p := by
  intro hr hs
  refine ⟨.list [.str id, slotValue slot], p, ?_, ?_, ?_, ?_⟩
  · simp only [write, hid]
  · refine .none hs ?_
    rintro call' ⟨info', type', inputs', object', typeName', slot', hr'⟩
    refine hs.id_of_reaches hg hr' hr rfl ?_
    rintro _ _ _ _ _ _ _ ⟨⟩
    exact ⟨id, hid⟩
  · intro _ info' name
    exact .link hid ((hs.key_iff_id id).2 ⟨call, hid⟩)
  · rintro _ _ _ _ _ _ _ ⟨⟩ hnone
    simp [hid] at hnone

theorem writeSound_new (hg : IsGraph root) (hb : Sendable root) (hnone : p.ids.id? call = none)
    (ih : WriteInputsSound root info inputs p) :
    WriteSound root (.output object typeName info call type inputs slot) p := by
  intro hr hs
  have hc : HasCall root info call type inputs := ⟨_, _, _, hr⟩
  obtain ⟨t, rfl⟩ := hg.named hc
  obtain ⟨sent, p₁, hwrite, hadds, hsent⟩ := ih (fun _ hmem => hr.trans (.step hmem (.refl _)))
    (fun name b hmem => hb hc hmem) hs
  have hnone₁ : p₁.ids.id? call = none := by
    refine Option.eq_none_iff_forall_ne_some.2 fun key hkey => ?_
    obtain hkey | ⟨⟨name, v⟩, hmem, info', type', inputs', hcall⟩ := hadds.only hkey
    · simp [hnone] at hkey
    · exact hg.acyclic hc hmem hcall
  let key := keyOf t (p₁.ids.count t)
  let p₂ : Prompt := ⟨p₁.entries ++ [(key, entryOf sent (.str t))], p₁.ids.assigned call t⟩
  have hs₂ : Sound root p₂ := hadds.sound.assigned hg hc hnone₁ hsent
  have hid := id?_assigned_iff (t := t) hnone₁
  have hkey : p₂.ids.id? call = some key := (hid _ _).2 (.inl ⟨rfl, rfl⟩)
  refine ⟨.list [.str key, slotValue slot], p₂, ?_, ?_, ?_, ?_⟩
  · simp only [write, hnone, hwrite, IdTable.assign_str, bind, Except.bind]
    rw [put_keyOf fun _ => hadds.sound.exists_keyOf hg]
    rfl
  · have hadds₂ : Adds root (· = call) p₁ p₂ :=
      { sound := hs₂
        later := ⟨⟨_, rfl⟩, fun h => (hid _ _).2 (.inr h)⟩
        given := by rintro _ rfl; exact ⟨key, hkey⟩
        only := fun h => ((hid _ _).1 h).symm.imp_right And.left }
    exact hadds.trans hadds₂ fun call' => (callOf_output call').trans or_comm
  · intro _ info' name
    exact .link hkey ((hs₂.key_iff_id key).2 ⟨call, hkey⟩)
  · rintro _ _ _ _ _ _ _ ⟨⟩ _
    exact ⟨_, key, _, rfl, hkey⟩

theorem writeSound_plain {v : Value} (hv : ∀ object typeName info call type inputs slot,
    v ≠ .output object typeName info call type inputs slot) : WriteSound root v p := by
  intro hr hs
  refine ⟨v, p, ?_, .none hs fun h => absurd h (not_callOf hv _), fun hb' info name => ?_,
    fun h => absurd h (hv _ _ _ _ _ _ _)⟩
  · cases v with
    | output => exact absurd rfl (hv _ _ _ _ _ _ _)
    | _ => simp only [write]
  · exact .plain hb' hv

theorem writeInputsSound_cons {input : String × Value} {rest : List (String × Value)}
    (ih : WriteInputSound root info input p) (ih' : ∀ p, WriteInputsSound root info rest p) :
    WriteInputsSound root info (input :: rest) p := by
  intro hr hb hs
  obtain ⟨first, p₁, hfirst, hadds, hw⟩ := ih (hr _ mem_cons_self)
    (fun b h => hb input.1 b (by simp [← h])) hs
  obtain ⟨others, p₂, hothers, hadds', hws⟩ := ih' p₁
    (fun input' hmem => hr _ (mem_cons_of_mem _ hmem))
    (fun name b hmem => hb name b (mem_cons_of_mem _ hmem)) hadds.sound
  refine ⟨first :: others, p₂, ?_, hadds.trans hadds' callOfInput_cons, .cons ?_ hws⟩
  · simp only [writeInputs, hfirst, hothers, bind, Except.bind]
  · exact hw.mono hadds'.later.ids hadds'.later.keys_subset

/-- The truth values of the graph are all that can keep a value of it from being written. The
induction follows the calls of `write` and its inputs. -/
theorem write_sound (hg : IsGraph root) (hb : Sendable root) (v : Value) (p : Prompt) :
    WriteSound root v p := by
  refine write.induct (WriteSound root) (WriteInputsSound root) (WriteInputSound root)
    ?known ?new ?plain ?nil ?cons ?truth ?other v p
  case known =>
    intro object typeName info call type inputs slot p id hid
    exact writeSound_known hg hid
  case new =>
    intro object typeName info call type inputs slot p hnone ih
    exact writeSound_new hg hb hnone ih
  case plain =>
    intro v p hv
    exact writeSound_plain fun _ _ _ _ _ _ _ h => hv _ _ _ _ _ _ _ h
  case nil =>
    intro info p _ _ hs
    exact ⟨[], p, by simp only [writeInputs], .none hs (by rintro _ ⟨_, ⟨⟩, _⟩), .nil⟩
  case cons =>
    intro info input rest p ih ih'
    exact writeInputsSound_cons ih ih'
  case truth =>
    intro info name p b _ hb' hs
    obtain ⟨w, hw⟩ := hb' b rfl
    refine ⟨(name, w), p, ?_, .none hs fun h => absurd h (not_callOf (by simp) _), .truth hw⟩
    simp only [writeInput, hw, bind, Except.bind]
  case other =>
    intro info name v p hv ih hr _ hs
    obtain ⟨w, p', hwrite, hadds, hw, -⟩ := ih hr hs
    refine ⟨(name, w), p', ?_, hadds, hw (fun b h => hv b h) info name⟩
    cases v with
    | bool b => exact absurd rfl (hv b)
    | _ => simp only [writeInput, hwrite, bind, Except.bind]

/-- The prompt of an output lists its graph, if the truth values in the graph can be sent. -/
theorem ofOutput_serializes {object : Nat} {typeName : String} {info : Value} {call : Nat}
    {type : Value} {inputs : List (String × Value)} {slot : Option Nat}
    (hg : IsGraph (.output object typeName info call type inputs slot))
    (hb : Sendable (.output object typeName info call type inputs slot)) :
    ∃ p, ofOutput (.output object typeName info call type inputs slot) = .ok p ∧
      Serializes (.output object typeName info call type inputs slot) call p := by
  obtain ⟨w, p, hwrite, hadds, -, hlast⟩ := write_sound hg hb _ empty (.refl _) .empty
  refine ⟨p, by simp only [ofOutput, add, hwrite, Except.map], ?_⟩
  exact
    { keys_nodup := hadds.sound.keys_nodup
      hasCall_iff := by
        intro call'
        refine ⟨hadds.given, ?_⟩
        rintro ⟨key, hkey⟩
        exact (hadds.only hkey).resolve_left (by simp [Prompt.empty, IdTable.empty, IdTable.id?])
      key_iff := hadds.sound.key_iff_id
      id_iff_call := hadds.sound.id_iff_call
      numbered := by
        intro t
        conv_rhs => rw [hadds.sound.numbered t, List.length_map, List.length_range]
        exact hadds.sound.numbered t
      written := hadds.sound.written
      last := hlast rfl rfl }

def choiceInfo (first second : Value) : Value :=
  .dict [("input", .dict [("required", .dict [("x", .list [.list [first, second]])])])]

def sharingInputs : List (String × Value) :=
  [("model", .output 1 "Model" .null 1 (.str "a") [("path", .str "a.0")] (some 0)),
    ("clip", .output 2 "Clip" .null 1 (.str "a") [("path", .str "a.0")] (some 1)),
    ("x", .bool true)]

theorem hasCall_sharing {first second : Value}
    (h : HasCall (.output 4 "Image" (choiceInfo first second) 3 (.str "a.0") sharingInputs (some 0))
      info call type inputs) :
    (info = choiceInfo first second ∧ call = 3 ∧ type = .str "a.0" ∧ inputs = sharingInputs) ∨
      (call = 1 ∧ type = .str "a" ∧ inputs = [("path", .str "a.0")]) := by
  obtain h | ⟨input, hmem, h⟩ := hasCall_output.1 h
  · exact .inl h
  · have hpath : ¬HasCall (.str "a.0") info call type inputs := not_hasCall (by simp)
    have hx : ¬HasCall (.bool true) info call type inputs := not_hasCall (by simp)
    simp only [sharingInputs, mem_cons, not_mem_nil, or_false] at hmem
    obtain rfl | rfl | rfl := hmem
    all_goals simp [hasCall_output, hpath, hx] at h
    all_goals exact .inr h.2

theorem isGraph_sharing (first second : Value) :
    IsGraph (.output 4 "Image" (choiceInfo first second) 3 (.str "a.0") sharingInputs (some 0)) where
  agrees := by
    intro info info' call type type' inputs inputs' h h'
    obtain ⟨-, rfl, rfl, rfl⟩ | ⟨rfl, rfl, rfl⟩ := hasCall_sharing h
    · obtain ⟨-, -, rfl, rfl⟩ | ⟨hcall, -, -⟩ := hasCall_sharing h'
      · exact ⟨rfl, rfl⟩
      · simp at hcall
    · obtain ⟨-, hcall, -, -⟩ | ⟨-, rfl, rfl⟩ := hasCall_sharing h'
      · simp at hcall
      · exact ⟨rfl, rfl⟩
  named := by
    intro info call type inputs h
    obtain ⟨-, -, rfl, -⟩ | ⟨-, rfl, -⟩ := hasCall_sharing h
    · exact ⟨_, rfl⟩
    · exact ⟨_, rfl⟩

/-- Two outputs of one call go into another, whose type looks like a key of the first. -/
theorem ofOutput_serializes_sharing : ∃ p,
    ofOutput (.output 4 "Image" (choiceInfo (.str "no") (.str "yes")) 3 (.str "a.0") sharingInputs
      (some 0)) = .ok p ∧
    Serializes (.output 4 "Image" (choiceInfo (.str "no") (.str "yes")) 3 (.str "a.0") sharingInputs
      (some 0)) 3 p := by
  refine ofOutput_serializes (isGraph_sharing _ _) ?_
  intro info call type inputs h name b hmem
  obtain ⟨rfl, -, -, rfl⟩ | ⟨-, -, rfl⟩ := hasCall_sharing h
  · simp only [sharingInputs, List.mem_cons, Prod.mk.injEq, reduceCtorEq, and_false, false_or,
      Value.bool.injEq, List.not_mem_nil, or_false] at hmem
    obtain ⟨rfl, rfl⟩ := hmem
    exact ⟨.str "yes", rfl⟩
  · simp at hmem

/-- A graph has no prompt if a truth value is given for a choice between a truth value and itself:
such a choice is refused. -/
theorem ofOutput_repeated_choice :
    IsGraph (.output 4 "Image" (choiceInfo (.bool true) (.bool true)) 3 (.str "a.0") sharingInputs
      (some 0)) ∧
    ¬∃ p, ofOutput (.output 4 "Image" (choiceInfo (.bool true) (.bool true)) 3 (.str "a.0")
      sharingInputs (some 0)) = .ok p := by
  refine ⟨isGraph_sharing _ _, ?_⟩
  rintro ⟨p, hp⟩
  have herror : ofOutput (.output 4 "Image" (choiceInfo (.bool true) (.bool true)) 3 (.str "a.0")
      sharingInputs (some 0)) = .error .broken := rfl
  simp [herror] at hp

end Writing

end Flowscript.Prompt
