import Flowscript.Proofs.Grouping
import Flowscript.Proofs.Real.Layer
import Mathlib.Logic.Relator

/-!
# Prompts and the identities of calls

Outputs tell their calls apart by identity, and so does a prompt in the making. The prompt itself
shows no identity: two graphs that differ in nothing else have the same prompt, and two runs that
build the same graph find the same results of earlier calls.
-/

namespace Flowscript.Prompt

mutual

/-- The same value with other identities: the calls that stand at the same place are related. -/
inductive Renamed (R : Nat → Nat → Prop) : Value → Value → Prop where
  | output {object object' : Nat} {typeName typeName' : String} {info : Value} {call call' : Nat}
      {type : Value} {inputs inputs' : List (String × Value)} {slot : Option Nat} :
      R call call' → RenamedInputs R inputs inputs' →
        Renamed R (.output object typeName info call type inputs slot)
          (.output object' typeName' info call' type inputs' slot)
  | plain {v : Value} : callOf? v = none → Renamed R v v

inductive RenamedInputs (R : Nat → Nat → Prop) :
    List (String × Value) → List (String × Value) → Prop where
  | nil : RenamedInputs R [] []
  | cons {name : String} {v v' : Value} {rest rest' : List (String × Value)} :
      Renamed R v v' → RenamedInputs R rest rest' →
        RenamedInputs R ((name, v) :: rest) ((name, v') :: rest')

end

/-- Two prompts in the making with the same entries and counts, in which related calls have the same
id. -/
structure SameUpTo (R : Nat → Nat → Prop) (p p' : Prompt) : Prop where
  entries : p.entries = p'.entries
  counts : p.ids.counts = p'.ids.counts
  ids : ∀ {c c'}, R c c' → p.ids.id? c = p'.ids.id? c'

def SameWritten {α : Type} (R : Nat → Nat → Prop) (written written' : α × Prompt) : Prop :=
  written.1 = written'.1 ∧ SameUpTo R written.2 written'.2

section Writing

variable {R : Nat → Nat → Prop} {p p' : Prompt}

theorem SameUpTo.assign (hR : Relator.BiUnique R) (h : SameUpTo R p p') {call call' : Nat}
    (hcall : R call call') (type : Value) :
    Matching Eq (fun given given' => given.1 = given'.1 ∧ given.2.counts = given'.2.counts ∧
        ∀ {c c'}, R c c' → given.2.id? c = given'.2.id? c')
      (p.ids.assign call type) (p'.ids.assign call' type) := by
  unfold IdTable.assign
  rw [h.counts]
  split
  · exact .error rfl
  · refine .ok ⟨rfl, rfl, fun {c c'} hc => ?_⟩
    have hsame : call = c ↔ call' = c' := Relator.rel_eq hR hcall hc
    have hids := h.ids hc
    unfold IdTable.id? at hids ⊢
    simp only [Table.find?_put, hids]
    by_cases hcc : call = c
    · rw [if_pos hcc, if_pos (hsame.1 hcc)]
    · rw [if_neg hcc, if_neg (fun h => hcc (hsame.2 h))]

def WritesRenamed (R : Nat → Nat → Prop) (v : Value) (p : Prompt) : Prop :=
  ∀ {v' p'}, Renamed R v v' → SameUpTo R p p' → Matching Eq (SameWritten R) (write v p) (write v' p')

def WritesInputsRenamed (R : Nat → Nat → Prop) (info : Value) (inputs : List (String × Value))
    (p : Prompt) : Prop :=
  ∀ {inputs' p'}, RenamedInputs R inputs inputs' → SameUpTo R p p' →
    Matching Eq (SameWritten R) (writeInputs info inputs p) (writeInputs info inputs' p')

def WritesInputRenamed (R : Nat → Nat → Prop) (info : Value) (input : String × Value) (p : Prompt) :
    Prop :=
  ∀ {v' p'}, Renamed R input.2 v' → SameUpTo R p p' →
    Matching Eq (SameWritten R) (writeInput info input p) (writeInput info (input.1, v') p')

theorem writesRenamed_new (hR : Relator.BiUnique R) {object : Nat} {typeName : String} {info : Value}
    {call : Nat} {type : Value} {inputs : List (String × Value)} {slot : Option Nat}
    (hnone : p.ids.id? call = none) (ih : WritesInputsRenamed R info inputs p) :
    WritesRenamed R (.output object typeName info call type inputs slot) p := by
  intro v' p' hv hp
  cases hv with
  | plain h => cases h
  | output hcall hinputs =>
    have hnone' := (hp.ids hcall).symm.trans hnone
    simp only [write, hnone, hnone']
    refine (ih hinputs hp).bind fun written written' hwritten => ?_
    obtain ⟨sent, q⟩ := written
    obtain ⟨sent', q'⟩ := written'
    obtain ⟨rfl, hq⟩ := hwritten
    refine (hq.assign hR hcall type).bind fun given given' hgiven => ?_
    obtain ⟨id, ids⟩ := given
    obtain ⟨id', ids'⟩ := given'
    obtain ⟨rfl, hcounts, hids⟩ := hgiven
    exact .ok ⟨rfl, congrArg (Value.put id _) hq.entries, hcounts, hids⟩

/-- A value and a renaming of it are written alike. The induction follows the calls of `write` and
its inputs on one side; the other side is at the same place. -/
theorem write_renamed (hR : Relator.BiUnique R) (v : Value) (p : Prompt) : WritesRenamed R v p := by
  refine write.induct (WritesRenamed R) (WritesInputsRenamed R) (WritesInputRenamed R)
    ?known ?new ?plain ?nil ?cons ?truth ?other v p
  case known =>
    intro object typeName info call type inputs slot p id hid v' p' hv hp
    cases hv with
    | plain h => cases h
    | output hcall _ =>
      have hid' := (hp.ids hcall).symm.trans hid
      simp only [write, hid, hid']
      exact .ok ⟨rfl, hp⟩
  case new =>
    intro object typeName info call type inputs slot p hnone ih
    exact writesRenamed_new hR hnone ih
  case plain =>
    intro v p hv v' p' hrenamed hp
    cases hrenamed with
    | output => exact absurd rfl (hv _ _ _ _ _ _ _)
    | plain =>
      rw [write.eq_2 _ _ hv, write.eq_2 _ _ hv]
      exact .ok ⟨rfl, hp⟩
  case nil =>
    intro info p inputs' p' hinputs hp
    cases hinputs
    exact .ok ⟨rfl, hp⟩
  case cons =>
    intro info input rest p ih ih' inputs' p' hinputs hp
    cases hinputs with
    | cons hv hrest =>
      rw [writeInputs, writeInputs]
      refine (ih hv hp).bind fun written written' hwritten => ?_
      obtain ⟨hsent, hq⟩ := hwritten
      refine (ih' _ hrest hq).bind fun others others' hothers => ?_
      exact .ok ⟨congrArg₂ _ hsent hothers.1, hothers.2⟩
  case truth =>
    intro info name p b v' p' hv hp
    cases hv
    rw [writeInput, writeInput]
    exact (Matching.refl (fun _ => rfl) (writeBool info name b)).bind
      fun _ _ hsent => .ok ⟨congrArg (Prod.mk name) hsent, hp⟩
  case other =>
    intro info name v p hv ih v' p' hrenamed hp
    have hv' : ∀ b, v' = .bool b → False := by
      rintro b rfl
      cases hrenamed
      exact hv b rfl
    rw [writeInput.eq_2 _ _ _ _ hv, writeInput.eq_2 _ _ _ _ hv']
    refine (ih hrenamed hp).bind fun written written' hwritten => ?_
    exact .ok ⟨congrArg (Prod.mk name) hwritten.1, hwritten.2⟩

theorem ofOutput_sameUpTo (hR : Relator.BiUnique R) {v v' : Value} (h : Renamed R v v') :
    Matching Eq (SameUpTo R) (ofOutput v) (ofOutput v') := by
  have hempty : SameUpTo R empty empty := ⟨rfl, rfl, fun _ => rfl⟩
  have hadd : Matching Eq (SameUpTo R) (add v empty) (add v' empty) := by
    have hwrite := write_renamed hR v empty h hempty
    unfold add
    generalize write v empty = written at hwrite ⊢
    generalize write v' empty = written' at hwrite ⊢
    cases hwrite with
    | error he => exact .error he
    | ok hsame => exact .ok hsame.2
  cases h with
  | output => exact hadd
  | plain hv =>
    cases v with
    | output => cases hv
    | _ => exact .error rfl

/-- The prompt of an output does not depend on the identities of calls, and neither does what its
result is kept under. Related calls have the same id. -/
theorem ofOutput_renamed (hR : Relator.BiUnique R) {v v' : Value} (h : Renamed R v v') :
    (ofOutput v).map entries = (ofOutput v').map entries ∧
    (∀ others others', RealM.promptOf (some (v :: others)) = RealM.promptOf (some (v' :: others'))) ∧
    ∀ {p p'}, ofOutput v = .ok p → ofOutput v' = .ok p' →
      ∀ {c c'}, R c c' → p.ids.id? c = p'.ids.id? c' := by
  have hmatching := ofOutput_sameUpTo hR h
  unfold RealM.promptOf RealM.firstOutput
  simp only [ok_bind]
  generalize ofOutput v = made at hmatching ⊢
  generalize ofOutput v' = made' at hmatching ⊢
  cases hmatching with
  | error he =>
    cases he
    exact ⟨rfl, fun _ _ => rfl, by simp⟩
  | ok hsame =>
    refine ⟨congrArg Except.ok hsame.entries, fun _ _ => ?_, ?_⟩
    · simp only [ok_bind, json, toValue, hsame.entries]
    · rintro p p' ⟨⟩ ⟨⟩
      exact hsame.ids

def sharingOutput (own shared : Nat) : Value :=
  .output own "Image" (choiceInfo (.str "no") (.str "yes")) own (.str "a.0")
    [("model", .output shared "Model" .null shared (.str "a") [("path", .str "a.0")] (some 0)),
      ("clip", .output (shared + own) "Clip" .null shared (.str "a") [("path", .str "a.0")] (some 1)),
      ("x", .bool true)] (some 0)

/-- The identities of the two calls come in the other order. -/
theorem ofOutput_renamed_sharingOutput :
    (ofOutput (sharingOutput 3 1)).map entries = (ofOutput (sharingOutput 7 9)).map entries ∧
    (ofOutput (sharingOutput 7 9)).map keys = .ok ["a.0", "a.0.0"] ∧
    RealM.promptOf (some [sharingOutput 3 1]) = RealM.promptOf (some [sharingOutput 7 9]) := by
  have hrenamed : Renamed (fun c c' => c = 3 ∧ c' = 7 ∨ c = 1 ∧ c' = 9) (sharingOutput 3 1)
      (sharingOutput 7 9) := by
    have hshared : RenamedInputs (fun c c' => c = 3 ∧ c' = 7 ∨ c = 1 ∧ c' = 9)
        [("path", .str "a.0")] [("path", .str "a.0")] := .cons (.plain rfl) .nil
    exact .output (.inl ⟨rfl, rfl⟩)
      (.cons (.output (.inr ⟨rfl, rfl⟩) hshared) (.cons (.output (.inr ⟨rfl, rfl⟩) hshared)
        (.cons (.plain rfl) .nil)))
  have hunique : Relator.BiUnique fun c c' : Nat => c = 3 ∧ c' = 7 ∨ c = 1 ∧ c' = 9 :=
    ⟨by rintro _ _ _ h h'; omega, by rintro _ _ _ h h'; omega⟩
  obtain ⟨hentries, hprompt, -⟩ := ofOutput_renamed hunique hrenamed
  exact ⟨hentries, rfl, hprompt [] []⟩

end Writing

end Flowscript.Prompt
