import Flowscript.Proofs.Serialization

/-!
# Prompts of several outputs

The prompt of a group of outputs is made by adding the outputs one after the other. A call of the
group's own comes last: it takes its id from the same numbers as all calls, and its entry is taken
out again, so that no entry of another call is.
-/

namespace Flowscript

open List

namespace Prompt

/-! ## Prompts that are filed -/

/-- A prompt whose keys are numbered below the counts of their types, and which has an entry for
each id. A call of the graph has an id only if the calls that its inputs lead to have. -/
structure Filed (root : Value) (p : Prompt) : Prop where
  numbered : ∀ key ∈ p.keys, ∃ t n, key = keyOf t n ∧ n < p.ids.count t
  listed : ∀ {call key}, p.ids.id? call = some key → key ∈ p.keys
  complete : ∀ {info : Value} {call : Nat} {type : Value} {inputs : List (String × Value)},
    HasCall root info call type inputs → (∃ key, p.ids.id? call = some key) →
      ∀ {c}, CallOfInput inputs c → ∃ key, p.ids.id? c = some key

/-- A filed prompt becomes one that is filed and has ids for the given calls too, and for no
others. -/
structure Files (root : Value) (calls : Nat → Prop) (p p' : Prompt) : Prop where
  filed : Filed root p'
  known_iff : ∀ call, (∃ key, p'.ids.id? call = some key) ↔
    (∃ key, p.ids.id? call = some key) ∨ calls call

section Filing

variable {root : Value} {p p' p'' : Prompt} {calls calls' : Nat → Prop}

theorem Filed.empty : Filed root empty where
  numbered := by simp [keys, Prompt.empty]
  listed := by simp [Prompt.empty, IdTable.empty, IdTable.id?]
  complete := by simp [Prompt.empty, IdTable.empty, IdTable.id?]

theorem Filed.keyOf_not_mem (hp : Filed root p) (t : String) :
    keyOf t (p.ids.count t) ∉ p.keys :=
  Prompt.keyOf_not_mem hp.numbered t

theorem Files.given (h : Files root calls p p') {call : Nat} (hcall : calls call) :
    ∃ key, p'.ids.id? call = some key :=
  (h.known_iff call).2 (.inr hcall)

theorem Files.none (hp : Filed root p)
    (h : ∀ {call}, calls call → ∃ key, p.ids.id? call = some key) : Files root calls p p :=
  ⟨hp, fun _ => ⟨.inl, fun hcall => hcall.elim id h⟩⟩

theorem Files.trans {all : Nat → Prop} (h : Files root calls p p') (h' : Files root calls' p' p'')
    (hall : ∀ call, all call ↔ calls call ∨ calls' call) : Files root all p p'' where
  filed := h'.filed
  known_iff := fun call => by rw [h'.known_iff, h.known_iff, hall, or_assoc]

theorem Filed.assigned (hg : IsGraph root) (hp : Filed root p) {info : Value} {call : Nat}
    {t : String} {inputs : List (String × Value)} (hc : HasCall root info call (.str t) inputs)
    (hinputs : ∀ {c}, CallOfInput inputs c → ∃ key, p.ids.id? c = some key) (entry : Value) :
    Files root (· = call) p
      ⟨Value.put (keyOf t (p.ids.count t)) entry p.entries, p.ids.assigned call t⟩ := by
  have hknown : ∀ c, (∃ key, (p.ids.assigned call t).id? c = some key) ↔
      (∃ key, p.ids.id? c = some key) ∨ c = call := by
    intro c
    rw [IdTable.id?_assigned]
    by_cases hcall : call = c
    · simp [hcall]
    · simp [hcall, Ne.symm hcall]
  rw [put_keyOf hp.numbered]
  refine ⟨⟨fun key hkey => ?_, fun {c key} hkey => ?_,
    fun {info' c type' inputs'} hc' hid c' hc'' => (hknown c').2 (.inl ?_)⟩, hknown⟩
  · simp only [keys, map_append, map_cons, map_nil, mem_append,
      mem_singleton] at hkey
    obtain hkey | rfl := hkey
    · obtain ⟨u, n, rfl, hn⟩ := hp.numbered key hkey
      refine ⟨u, n, rfl, ?_⟩
      rw [IdTable.count_assigned]
      split
      · next htu => exact Nat.lt_succ_of_lt (htu ▸ hn)
      · exact hn
    · exact ⟨t, _, rfl, by simp [IdTable.count_assigned]⟩
  · rw [IdTable.id?_assigned] at hkey
    simp only [keys, map_append, map_cons, map_nil, mem_append,
      mem_singleton]
    split at hkey
    · exact .inr (Option.some.inj hkey).symm
    · exact .inl (hp.listed hkey)
  · obtain hid | rfl := (hknown c).1 hid
    · exact hp.complete hc' hid hc''
    · obtain ⟨-, rfl⟩ := hg.agrees hc hc'
      exact hinputs hc''

end Filing

/-! ## Writing files what is written -/

section Writing

variable {root : Value} {p p' : Prompt} {info : Value}

/-- If a value of the graph can be written, it is filed with its calls. -/
def WriteFiles (root v : Value) (p : Prompt) : Prop :=
  Reaches root v → Filed root p → ∀ {w p'}, write v p = .ok (w, p') → Files root (CallOf v) p p'

def WriteInputsFiles (root info : Value) (inputs : List (String × Value)) (p : Prompt) : Prop :=
  (∀ input ∈ inputs, Reaches root input.2) → Filed root p →
    ∀ {sent p'}, writeInputs info inputs p = .ok (sent, p') → Files root (CallOfInput inputs) p p'

def WriteInputFiles (root info : Value) (input : String × Value) (p : Prompt) : Prop :=
  Reaches root input.2 → Filed root p →
    ∀ {sent p'}, writeInput info input p = .ok (sent, p') → Files root (CallOf input.2) p p'

theorem writeFiles_known {object : Nat} {typeName : String} {call : Nat} {type : Value}
    {inputs : List (String × Value)} {slot : Option Nat} {id : String} (hid : p.ids.id? call = some id) :
    WriteFiles root (.output object typeName info call type inputs slot) p := by
  intro hr hp w p' h
  simp only [write, hid, Except.ok.injEq, Prod.mk.injEq] at h
  obtain ⟨-, rfl⟩ := h
  refine .none hp fun {c} hc => ?_
  obtain rfl | hc := (callOf_output c).1 hc
  · exact ⟨id, hid⟩
  · exact hp.complete ⟨_, _, _, hr⟩ ⟨id, hid⟩ hc

theorem writeFiles_new (hg : IsGraph root) {object : Nat} {typeName : String} {call : Nat} {type : Value}
    {inputs : List (String × Value)} {slot : Option Nat} (hnone : p.ids.id? call = none)
    (ih : WriteInputsFiles root info inputs p) :
    WriteFiles root (.output object typeName info call type inputs slot) p := by
  intro hr hp w p' h
  have hc : HasCall root info call type inputs := ⟨_, _, _, hr⟩
  obtain ⟨t, rfl⟩ := hg.named hc
  simp only [write, hnone] at h
  obtain ⟨⟨sent, p₁⟩, hwrite, h⟩ := ok_of_bind h
  have hfiles := ih (fun _ hmem => hr.trans (.step hmem (.refl _))) hp hwrite
  obtain ⟨-, rfl⟩ := Prod.mk.inj (Except.ok.inj h)
  exact hfiles.trans (hfiles.filed.assigned hg hc hfiles.given _)
    fun c => (callOf_output c).trans or_comm

theorem writeInputsFiles_cons {input : String × Value} {rest : List (String × Value)}
    (ih : WriteInputFiles root info input p) (ih' : ∀ p, WriteInputsFiles root info rest p) :
    WriteInputsFiles root info (input :: rest) p := by
  intro hr hp sent p' h
  rw [writeInputs] at h
  obtain ⟨⟨first, p₁⟩, hfirst, h⟩ := ok_of_bind h
  obtain ⟨⟨others, p₂⟩, hothers, h⟩ := ok_of_bind h
  obtain ⟨-, rfl⟩ := Prod.mk.inj (Except.ok.inj h)
  have hfiles := ih (hr _ mem_cons_self) hp hfirst
  exact hfiles.trans (ih' p₁ (fun _ hmem => hr _ (mem_cons_of_mem _ hmem)) hfiles.filed hothers)
    callOfInput_cons

/-- What is written is filed, with all calls that it is reached from. The induction follows the calls
of `write` and its inputs. -/
theorem write_files (hg : IsGraph root) (v : Value) (p : Prompt) : WriteFiles root v p := by
  refine write.induct (WriteFiles root) (WriteInputsFiles root) (WriteInputFiles root)
    ?known ?new ?plain ?nil ?cons ?truth ?other v p
  case known =>
    intro object typeName info call type inputs slot p id hid
    exact writeFiles_known hid
  case new =>
    intro object typeName info call type inputs slot p hnone ih
    exact writeFiles_new hg hnone ih
  case plain =>
    intro v p hv hr hp w p' h
    have hno : ∀ c, ¬CallOf v c := not_callOf fun _ _ _ _ _ _ _ h => hv _ _ _ _ _ _ _ h
    rw [write.eq_2 _ _ hv] at h
    obtain ⟨-, rfl⟩ := Prod.mk.inj (Except.ok.inj h)
    exact .none hp fun hc => absurd hc (hno _)
  case nil =>
    intro info p _ hp sent p' h
    rw [writeInputs] at h
    obtain ⟨-, rfl⟩ := Prod.mk.inj (Except.ok.inj h)
    exact .none hp (by rintro _ ⟨_, ⟨⟩, _⟩)
  case cons =>
    intro info input rest p ih ih'
    exact writeInputsFiles_cons ih ih'
  case truth =>
    intro info name p b _ hp sent p' h
    rw [writeInput] at h
    obtain ⟨v, -, h⟩ := ok_of_bind h
    obtain ⟨-, rfl⟩ := Prod.mk.inj (Except.ok.inj h)
    exact .none hp fun hc => absurd hc (not_callOf (by simp) _)
  case other =>
    intro info name v p hv ih hr hp sent p' h
    rw [writeInput.eq_2 _ _ _ _ hv] at h
    obtain ⟨⟨w, p₁⟩, hwrite, h⟩ := ok_of_bind h
    obtain ⟨-, rfl⟩ := Prod.mk.inj (Except.ok.inj h)
    exact ih hr hp hwrite

end Writing

/-! ## Groups -/

def callOf? : Value → Option Nat
  | .output _ _ _ call _ _ _ => some call
  | _ => none

def groupInputs (outputs : List Value) : List (String × Value) :=
  outputs.zipIdx.map fun entry => (Value.intText entry.2, entry.1)

/-- The output of the call that stands for a group of outputs. -/
def group (outputs : List Value) : Value :=
  .output 0 "NodeOutput" (.dict []) groupCall groupType (groupInputs outputs) none

def withoutGroup (p : Prompt) : Prompt :=
  match p.ids.id? groupCall with
  | some id => ⟨Value.remove id p.entries, p.ids⟩
  | none => p

def groupName : String := "ComfyScript"

def closeGroup (p : Prompt) : Prompt :=
  ⟨Value.remove (keyOf groupName (p.ids.count groupName)) p.entries,
    p.ids.assigned groupCall groupName⟩

def addAll (outputs : List Value) (p : Prompt) : Except Fault Prompt :=
  outputs.foldlM (fun p output => add output p) p

section Groups

variable {outputs : List Value} {o : Value} {p : Prompt} {call : Nat}

theorem map_snd_groupInputs (outputs : List Value) :
    (groupInputs outputs).map Prod.snd = outputs := by
  rw [groupInputs, map_map]
  exact zipIdx_map_fst 0 outputs

theorem foldlM_addMember (h : ∀ o ∈ outputs, (callOf? o).isSome) (p : Prompt) :
    outputs.foldlM addMember p = addAll outputs p := by
  unfold addAll
  induction outputs generalizing p with
  | nil => rfl
  | cons o rest ih =>
    have hadd : addMember p o = add o p := by
      cases o with
      | bool b => cases h _ mem_cons_self
      | _ => rfl
    rw [foldlM_cons, foldlM_cons, hadd]
    congr 1
    funext p
    exact ih (fun o' ho' => h o' (mem_cons_of_mem _ ho')) p

theorem writeInputs_outputs (info : Value) (inputs : List (String × Value))
    (h : ∀ input ∈ inputs, (callOf? input.2).isSome) (p : Prompt) :
    (writeInputs info inputs p).map Prod.snd = addAll (inputs.map Prod.snd) p := by
  unfold addAll
  induction inputs generalizing p with
  | nil =>
    rw [writeInputs]
    rfl
  | cons input rest ih =>
    obtain ⟨name, o⟩ := input
    have hwrite : writeInput info (name, o) p =
        (write o p).map fun written => ((name, written.1), written.2) := by
      cases o with
      | bool b => cases h _ mem_cons_self
      | _ =>
        simp only [writeInput]
        cases write _ p <;> rfl
    rw [writeInputs, hwrite, map_cons, foldlM_cons, add]
    cases write o p with
    | error e => rfl
    | ok written =>
      have hrest := ih (fun input hmem => h input (mem_cons_of_mem _ hmem)) written.2
      change (writeInputs info rest written.2 >>= fun others =>
        Except.ok ((name, written.1) :: others.1, others.2)).map Prod.snd = _
      cases hothers : writeInputs info rest written.2 with
      | error e =>
        rw [hothers] at hrest
        exact hrest
      | ok others =>
        rw [hothers] at hrest
        exact hrest

theorem write_group (h : ∀ o ∈ outputs, (callOf? o).isSome) :
    (write (group outputs) empty).map (fun written => written.2.withoutGroup) =
      (addAll outputs empty).map closeGroup := by
  have hinputs := writeInputs_outputs (.dict []) (groupInputs outputs)
    (fun input hmem => h _ (map_snd_groupInputs outputs ▸ mem_map_of_mem hmem)) empty
  rw [map_snd_groupInputs] at hinputs
  have hnone : empty.ids.id? groupCall = none := rfl
  have htype : groupType = .str groupName := rfl
  rw [group, write, hnone, ← hinputs]
  cases writeInputs (.dict []) (groupInputs outputs) empty with
  | error e => rfl
  | ok written =>
    have hid : (written.2.ids.assigned groupCall groupName).id? groupCall =
        some (keyOf groupName (written.2.ids.count groupName)) := by
      rw [IdTable.id?_assigned, if_pos rfl]
    simp only [ok_bind, htype, IdTable.assign_str, Except.map, withoutGroup, hid, Value.remove_put,
      closeGroup]

theorem ofOutputs_of_length_ne_one (h : ∀ o ∈ outputs, (callOf? o).isSome)
    (hlength : outputs.length ≠ 1) :
    ofOutputs outputs = (addAll outputs empty).map closeGroup := by
  have hgroup : ofOutputs outputs = outputs.foldlM addMember empty >>= fun p =>
      p.ids.assign groupCall groupType >>= fun assigned =>
        Except.ok ⟨Value.remove assigned.1 p.entries, assigned.2⟩ := by
    match outputs, hlength with
    | [], _ => rfl
    | _ :: _ :: _, _ => rfl
  rw [hgroup, foldlM_addMember h]
  cases addAll outputs empty <;> rfl

theorem ofOutputs_singleton (h : (callOf? o).isSome) :
    ofOutputs [o] = addAll [o] empty := by
  cases o with
  | output object typeName info call type inputs slot =>
    rw [addAll, foldlM_cons]
    exact (bind_pure (add _ empty)).symm
  | _ => cases h

theorem ofOutputs_eq_write_group (h : ∀ o ∈ outputs, (callOf? o).isSome)
    (hlength : outputs.length ≠ 1) :
    ofOutputs outputs = (write (group outputs) empty).map fun written => written.2.withoutGroup := by
  rw [ofOutputs_of_length_ne_one h hlength, write_group h]

theorem reaches_group (ho : o ∈ outputs) : Reaches (group outputs) o := by
  rw [← map_snd_groupInputs outputs] at ho
  obtain ⟨⟨name, o⟩, hmem, rfl⟩ := mem_map.mp ho
  exact .step hmem (.refl _)

theorem addAll_files (hg : IsGraph (group outputs)) (h : addAll outputs empty = .ok p) :
    Files (group outputs) (fun call => ∃ o ∈ outputs, CallOf o call) empty p := by
  suffices hall : ∀ (rest : List Value) (p p' : Prompt), rest ⊆ outputs → Filed (group outputs) p →
      addAll rest p = .ok p' → Files (group outputs) (fun c => ∃ o ∈ rest, CallOf o c) p p' from
    hall outputs empty p (List.Subset.refl _) .empty h
  intro rest
  induction rest with
  | nil =>
    intro p p' _ hp h
    obtain rfl := Except.ok.inj h
    exact .none hp (by simp)
  | cons o rest ih =>
    intro p p' hsub hp h
    obtain ⟨p₁, hadd, hrest⟩ := ok_of_bind h
    obtain ⟨written, hwrite, rfl⟩ := ok_of_map hadd
    have hfiles := write_files hg o p (reaches_group (hsub mem_cons_self)) hp hwrite
    exact hfiles.trans (ih _ _ (fun _ ho => hsub (mem_cons_of_mem _ ho)) hfiles.filed hrest)
      fun c => by simp

theorem callOf_ne_groupCall (hg : IsGraph (group outputs)) (ho : o ∈ outputs) (hcall : CallOf o call) :
    call ≠ groupCall := by
  rintro rfl
  rw [← map_snd_groupInputs outputs] at ho
  obtain ⟨⟨name, o⟩, hmem, rfl⟩ := mem_map.mp ho
  obtain ⟨info, type, inputs, hc⟩ := hcall
  exact hg.acyclic ⟨_, _, _, .refl _⟩ hmem hc

theorem entries_closeGroup {root : Value} (hp : Filed root p) :
    p.closeGroup.entries = p.entries :=
  Value.remove_of_not_mem (hp.keyOf_not_mem groupName)

theorem id?_closeGroup (p : Prompt) (call : Nat) : p.closeGroup.ids.id? call =
    if groupCall = call then some (keyOf groupName (p.ids.count groupName))
    else p.ids.id? call :=
  IdTable.id?_assigned _ _ _ _

theorem listed_of_addAll (hg : IsGraph (group outputs)) {q : Prompt} (hq : addAll outputs empty = .ok q)
    (hentries : p.entries = q.entries) (hids : ∀ {call}, call ≠ groupCall → p.ids.id? call = q.ids.id? call)
    (ho : o ∈ outputs) (hcall : CallOf o call) :
    ∃ key ∈ p.keys, p.ids.id? call = some key := by
  have hfiles := addAll_files hg hq
  obtain ⟨key, hkey⟩ := hfiles.given ⟨o, ho, hcall⟩
  have hmem : key ∈ q.keys := hfiles.filed.listed hkey
  refine ⟨key, by rwa [keys, hentries], ?_⟩
  rw [hids (callOf_ne_groupCall hg ho hcall), hkey]

theorem addAll_of_sendable (hg : IsGraph (group outputs)) (hb : Sendable (group outputs)) :
    ∃ p, addAll outputs empty = .ok p := by
  have hstep : ∀ done o rest p, outputs = done ++ o :: rest → Sound (group outputs) p →
      ∃ p', add o p = .ok p' ∧ Sound (group outputs) p' := by
    intro done o rest p hsplit hp
    have ho : o ∈ outputs := hsplit ▸ by simp
    obtain ⟨w, p', hwrite, hadds, -⟩ := write_sound hg hb o p (reaches_group ho) hp
    exact ⟨p', by simp only [add, hwrite, Except.map], hadds.sound⟩
  obtain ⟨p, hp, -⟩ := foldlM_ok (fun _ p => Sound (group outputs) p) outputs hstep .empty
  exact ⟨p, hp⟩

/-- The prompt of a group lists the outputs one after the other, as if they were added to an empty
prompt in order. What is left of the group's own call is its id, which is no key, and every call that
the outputs lead to has an entry. -/
theorem ofOutputs_eq_addAll (houtputs : ∀ o ∈ outputs, (callOf? o).isSome)
    (hg : IsGraph (group outputs)) :
    (ofOutputs outputs).map entries = (addAll outputs empty).map entries ∧
    (outputs.length ≠ 1 → ofOutputs outputs =
      (write (group outputs) empty).map fun written => written.2.withoutGroup) ∧
    (Sendable (group outputs) → ∃ p, ofOutputs outputs = .ok p) ∧
    ∀ p, ofOutputs outputs = .ok p →
      (∀ key ∈ p.keys, p.ids.id? groupCall ≠ some key) ∧
      ∀ o ∈ outputs, ∀ {call}, CallOf o call → ∃ key ∈ p.keys, p.ids.id? call = some key := by
  -- one output is not treated as a group, and its own prompt is what is left of one
  have hcases : ofOutputs outputs = addAll outputs empty ∨
      ofOutputs outputs = (addAll outputs empty).map closeGroup := by
    by_cases hlength : outputs.length = 1
    · obtain ⟨o, rfl⟩ := List.length_eq_one_iff.mp hlength
      exact .inl (ofOutputs_singleton (houtputs o List.mem_cons_self))
    · exact .inr (ofOutputs_of_length_ne_one houtputs hlength)
  refine ⟨?_, ofOutputs_eq_write_group houtputs, fun hb => ?_, fun p hp => ?_⟩
  · rcases hcases with h | h
    · rw [h]
    · rw [h]
      cases hall : addAll outputs empty with
      | error e => rfl
      | ok p => exact congrArg Except.ok (entries_closeGroup (addAll_files hg hall).filed)
  · obtain ⟨p, hp⟩ := addAll_of_sendable hg hb
    rcases hcases with h | h
    · exact ⟨p, h.trans hp⟩
    · exact ⟨p.closeGroup, by rw [h, hp]; rfl⟩
  · rcases hcases with h | h
    · rw [h] at hp
      refine ⟨fun key _ hkey => ?_, fun o ho call => listed_of_addAll hg hp rfl (fun _ => rfl) ho⟩
      obtain ⟨_, hempty⟩ | ⟨o, ho, hcall⟩ := ((addAll_files hg hp).known_iff groupCall).1 ⟨key, hkey⟩
      · cases hempty
      · exact callOf_ne_groupCall hg ho hcall rfl
    · rw [h] at hp
      obtain ⟨q, hq, rfl⟩ := ok_of_map hp
      have hfiled := (addAll_files hg hq).filed
      have hids : ∀ {call}, call ≠ groupCall → q.closeGroup.ids.id? call = q.ids.id? call :=
        fun hne => by rw [id?_closeGroup, if_neg hne.symm]
      refine ⟨fun key hmem hkey => ?_,
        fun o ho call => listed_of_addAll hg hq (entries_closeGroup hfiled) hids ho⟩
      rw [id?_closeGroup, if_pos rfl] at hkey
      rw [keys, entries_closeGroup hfiled] at hmem
      exact hfiled.keyOf_not_mem groupName (Option.some.inj hkey ▸ hmem)

def firstOutput : Value := .output 3 "Model" .null 1 (.str "ComfyScript") [("path", .str "a")] (some 0)

def repeatedOutputs : List Value :=
  [firstOutput, .output 4 "Image" .null 2 (.str "ComfyScript") [("model", firstOutput)] (some 0),
    firstOutput]

theorem hasCall_repeatedOutputs {info : Value} {type : Value} {inputs : List (String × Value)}
    (h : HasCall (group repeatedOutputs) info call type inputs) :
    type = .str "ComfyScript" ∧
      (call = 0 ∧ inputs = groupInputs repeatedOutputs ∨ call = 1 ∧ inputs = [("path", .str "a")] ∨
        call = 2 ∧ inputs = [("model", firstOutput)]) := by
  have hpath : ¬HasCall (.str "a") info call type inputs := not_hasCall (by simp)
  have hfirst : HasCall firstOutput info call type inputs →
      type = .str "ComfyScript" ∧ call = 1 ∧ inputs = [("path", .str "a")] := by
    intro h
    obtain ⟨-, rfl, rfl, rfl⟩ | ⟨input, hmem, h⟩ := hasCall_output.1 h
    · exact ⟨rfl, rfl, rfl⟩
    · obtain rfl := mem_singleton.1 hmem
      exact absurd h hpath
  obtain ⟨-, rfl, rfl, rfl⟩ | ⟨input, hmem, h⟩ := hasCall_output.1 h
  · exact ⟨rfl, .inl ⟨rfl, rfl⟩⟩
  · have hmem := mem_map_of_mem (f := Prod.snd) hmem
    rw [map_snd_groupInputs] at hmem
    simp only [repeatedOutputs, mem_cons, not_mem_nil, or_false] at hmem
    obtain hv | hv | hv := hmem
    · rw [hv] at h
      exact ⟨(hfirst h).1, .inr (.inl (hfirst h).2)⟩
    · rw [hv] at h
      obtain ⟨-, rfl, rfl, rfl⟩ | ⟨input, hmem, h⟩ := hasCall_output.1 h
      · exact ⟨rfl, .inr (.inr ⟨rfl, rfl⟩)⟩
      · obtain rfl := mem_singleton.1 hmem
        exact ⟨(hfirst h).1, .inr (.inl (hfirst h).2)⟩
    · rw [hv] at h
      exact ⟨(hfirst h).1, .inr (.inl (hfirst h).2)⟩

theorem isGraph_repeatedOutputs : IsGraph (group repeatedOutputs) where
  agrees := by
    intro info info' call type type' inputs inputs' h h'
    obtain ⟨rfl, hcall⟩ := hasCall_repeatedOutputs h
    obtain ⟨rfl, hcall'⟩ := hasCall_repeatedOutputs h'
    refine ⟨rfl, ?_⟩
    obtain ⟨rfl, rfl⟩ | ⟨rfl, rfl⟩ | ⟨rfl, rfl⟩ := hcall <;> simpa [eq_comm] using hcall'
  named := fun h => ⟨_, (hasCall_repeatedOutputs h).1⟩

/-- The outputs of two calls whose type is that of a group's own: both calls keep their entries, and
the id that is left over is the third. -/
theorem ofOutputs_eq_addAll_repeatedOutputs : ∃ p, ofOutputs repeatedOutputs = .ok p ∧
    p.keys = ["ComfyScript.0", "ComfyScript.1"] ∧ p.ids.id? groupCall = some "ComfyScript.2" ∧
    (addAll repeatedOutputs empty).map entries = .ok p.entries ∧
    ∀ o ∈ repeatedOutputs, ∀ {call}, CallOf o call →
      ∃ key ∈ p.keys, p.ids.id? call = some key := by
  obtain ⟨hentries, -, -, hlisted⟩ :=
    ofOutputs_eq_addAll (by simp [repeatedOutputs, firstOutput, callOf?]) isGraph_repeatedOutputs
  obtain ⟨p, hp⟩ : ∃ p, ofOutputs repeatedOutputs = .ok p := ⟨_, rfl⟩
  refine ⟨p, hp, ?_, ?_, ?_, (hlisted p hp).2⟩
  · obtain rfl := Except.ok.inj hp
    rfl
  · obtain rfl := Except.ok.inj hp
    rfl
  · rw [← hentries, hp]
    rfl

end Groups

end Prompt

end Flowscript
