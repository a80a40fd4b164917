import Flowscript.Proofs.Registry.Reading
import Flowscript.Proofs.Identifier

/-!
# Parameters in declarations

The declaration of a node has a parameter for each input. A default value is cut off where one
without a default follows, by the equals sign in front of it. That works because no hint has such a
sign or ends in a blank: the names of types are identifiers.
-/

namespace Flowscript

open List

/-- A text without an equals sign that does not end in a blank. -/
def Plain (s : String) : Prop :=
  '=' ∉ s.toList ∧ s.toList.getLast?.all (fun c => !Text.isBlank c) = true

theorem Plain.append {s t : String} (hs : '=' ∉ s.toList) (ht : Plain t) (hne : t.toList ≠ []) :
    Plain (s ++ t) := by
  unfold Plain
  rw [String.toList_append, getLast?_append_of_ne_nil _ hne, mem_append, not_or]
  exact ⟨⟨hs, ht.1⟩, ht.2⟩

theorem not_mem_of_isWord {s : String} (h : ∀ c ∈ s.toList, Identifier.isWord c = true) :
    '=' ∉ s.toList := fun hmem => absurd (h '=' hmem) (by decide)

theorem not_mem_raw (s : String) : '=' ∉ (Identifier.raw s).toList :=
  not_mem_of_isWord fun _ hc => Identifier.kept_isWord.of_mem_raw hc

theorem plain_candidate (raw : String) (n : Nat) : Plain (Registry.candidate raw n) := by
  have hmem {p : Char → Bool} (hp : Identifier.Kept p) :
      ∀ c ∈ (Registry.candidate raw n).toList, p c = true := by
    intro c hc
    rw [Registry.candidate, String.toList_append, String.toList_ofList, mem_append] at hc
    rcases hc with hc | hc
    · exact hp.of_mem_classId hc
    · rw [eq_of_mem_replicate hc]
      exact hp.continues '_' (by decide)
  refine ⟨not_mem_of_isWord (hmem Identifier.kept_isWord), ?_⟩
  cases hlast : (Registry.candidate raw n).toList.getLast? with
  | none => rfl
  | some c => exact hmem Identifier.kept_not_isBlank c (mem_of_getLast? hlast)

namespace Parameter

variable {p : Parameter} {ps : List Parameter}

theorem hasDefault_eq (h : Plain p.hint) : p.hasDefault = p.default.isSome := by
  simp [hasDefault, h.1]

theorem withoutDefault_eq (h : Plain p.hint) :
    p.withoutDefault = { p with hint := p.hint ++ " | None", default := none } := by
  have hcut : p.hint.toList.takeWhile (· != '=') = p.hint.toList := by
    rw [takeWhile_eq_self_iff]
    intro c hc
    exact bne_iff_ne.mpr fun heq => h.1 (heq ▸ hc)
  have htrim : Text.trimRight p.hint.toList = p.hint.toList := by
    refine rdropWhile_eq_self_iff.mpr fun hne hblank => ?_
    have hlast := h.2
    rw [getLast?_eq_some_getLast hne] at hlast
    simp [hblank] at hlast
  rw [withoutDefault, hcut, htrim, String.ofList_toList]

/-- What a declaration shows of a parameter before others: its default value, if all of them have one,
and else the value none in place of it. -/
def shown (p : Parameter) (later : List Parameter) : String :=
  p.id ++ ": " ++ p.hint ++ match p.default with
    | none => ""
    | some d => if later.all fun q => q.default.isSome then " = " ++ d else " | None"

def signature : List Parameter → List String
  | [] => []
  | p :: later => p.shown later :: signature later

theorem map_text_dropDefaults (h : ∀ p ∈ ps, Plain p.hint) :
    (dropDefaults ps).map text = signature ps := by
  induction ps with
  | nil => rfl
  | cons p later ih =>
    obtain ⟨hp, hlater⟩ := forall_mem_cons.mp h
    have hany : (later.any fun q => !q.hasDefault) = !later.all fun q => q.default.isSome := by
      rw [not_all_eq_any_not, Bool.eq_iff_iff, any_eq_true, any_eq_true]
      refine exists_congr fun q => and_congr_right fun hq => ?_
      rw [hasDefault_eq (hlater q hq)]
    rw [dropDefaults, map_cons, ih hlater, hasDefault_eq hp, hany, signature, shown]
    cases hd : p.default with
    | none => simp [text, hd]
    | some d =>
      cases hall : later.all fun q => q.default.isSome with
      | true => simp [text, hd]
      | false => simp [text, withoutDefault_eq hp, String.append_assoc]

theorem mem_of_mem_signature (h : (ps.all fun q => q.default.isSome) = true) :
    ∀ s ∈ signature ps, '=' ∈ s.toList := by
  induction ps with
  | nil => exact fun s hs => absurd hs not_mem_nil
  | cons p later ih =>
    rw [all_cons, Bool.and_eq_true] at h
    obtain ⟨d, hd⟩ := Option.isSome_iff_exists.mp h.1
    refine forall_mem_cons.mpr ⟨?_, ih h.2⟩
    rw [shown, hd]
    simp [h.2]

theorem pairwise_signature (h : ∀ p ∈ ps, '=' ∉ p.id.toList ∧ '=' ∉ p.hint.toList) :
    (signature ps).Pairwise fun s t => '=' ∈ s.toList → '=' ∈ t.toList := by
  induction ps with
  | nil => exact .nil
  | cons p later ih =>
    obtain ⟨hp, hlater⟩ := forall_mem_cons.mp h
    refine .cons (fun t ht hmem => ?_) (ih hlater)
    refine mem_of_mem_signature ?_ t ht
    by_contra hall
    rw [shown] at hmem
    cases hd : p.default with
    | none => simp [hd, hp] at hmem
    | some d => simp [hd, hp, hall] at hmem

end Parameter

namespace Registry

/-- The names of types that are registered for raw names are plain. -/
structure Plain (r : Registry) : Prop where
  vars : ∀ entry ∈ r.vars, ∀ raw name, entry.2.raw? = some raw → entry.2.name? = some name →
    Flowscript.Plain name
  shared : ∀ entry ∈ r.sharedValues, '=' ∉ entry.1.toList

theorem not_mem_keptIds : ∀ id ∈ keptIds, '=' ∉ id.toList := by decide +kernel

variable {r r' : Registry}

theorem Plain.setVar (h : r.Plain) (id : String) {t : TypeRef}
    (ht : ∀ raw name, t.raw? = some raw → t.name? = some name → Flowscript.Plain name) :
    (r.setVar id t).Plain := by
  refine ⟨fun entry hentry => ?_, h.shared⟩
  rcases Table.mem_put hentry with hold | rfl
  · exact h.vars entry hold
  · exact ht

theorem Plain.of_step (h : r.Plain) (hstep : r.Step Flowscript.Plain r') : r'.Plain := by
  have hclaimed {raw id : String} (hid : r.resolve raw = .inr id) : Flowscript.Plain id := by
    obtain ⟨n, rfl, -, -⟩ := of_resolve_inr hid
    exact plain_candidate raw n
  have hput {id : String} {values : Value} (hid : '=' ∉ id.toList) :
      ∀ entry ∈ Table.put id values r.sharedValues, '=' ∉ entry.1.toList := by
    intro entry hentry
    rcases Table.mem_put_cases hentry with hold | rfl
    · exact h.shared entry hold
    · exact hid
  cases hstep with
  | read hread =>
    cases hread with
    | log _ => exact ⟨h.vars, h.shared⟩
    | @declare raw id hid =>
      have hfirst := h.setVar id (t := .claimed id raw) (by rintro _ _ - ⟨⟩; exact hclaimed hid)
      have hset := hfirst.setVar id (t := .data id raw) (by rintro _ _ - ⟨⟩; exact hclaimed hid)
      exact ⟨hset.vars, hset.shared⟩
    | @share id _ _ _ e hid _ _ =>
      exact ⟨(h.setVar _ (t := .enumeration e) (by rintro _ _ ⟨⟩)).vars, hput (not_mem_keptIds id hid)⟩
  | @claim raw id hid => exact h.setVar id (by rintro _ _ - ⟨⟩; exact hclaimed hid)
  | embed hembedded =>
    cases hembedded with
    | noted _ => exact ⟨h.vars, h.shared⟩
    | @listed _ _ _ _ e _ _ _ =>
      exact ⟨(h.setVar _ (t := .enumeration e) (by rintro _ _ ⟨⟩)).vars, hput (by decide)⟩
  | @node raw id className _ _ _ hname =>
    have hset := h.setVar id (t := .node raw className) fun _ name _ h => hname name h
    exact ⟨hset.vars, hset.shared⟩
  | stub _ => exact ⟨h.vars, h.shared⟩

theorem Plain.of_reads (h : r.Plain) (hreads : r.Reads r') : r'.Plain := by
  induction hreads with
  | refl => exact h
  | tail _ hread ih => exact ih.of_step (.read hread)

theorem plain_empty (hiddenInputs : Bool) (maxEnumValues : Int) :
    (empty hiddenInputs maxEnumValues false).Plain := by
  refine ⟨fun entry hentry raw name hraw => ?_, fun entry hentry => absurd hentry not_mem_nil⟩
  rw [(unnamed_empty hiddenInputs maxEnumValues).raw? entry hentry] at hraw
  cases hraw

theorem Reads.nodeStubs (h : r.Reads r') : r'.nodeStubs = r.nodeStubs := by
  induction h with
  | refl => rfl
  | tail _ hread ih =>
    rw [← ih]
    cases hread <;> rfl

end Registry

namespace Hinting

variable {scope : Scope} {f f' : Findings} {r r' : Registry}

theorem Typed.plain {isOutput : Bool} {name id text : String} {type suggested : Value} {t : TypeRef}
    (h : Typed scope isOutput name id type f r t text suggested f' r') (hr : r.Plain)
    (himports : r.imports = none) (hclass : '=' ∉ scope.classId.toList) (hid : '=' ∉ id.toList) :
    Plain (widened t text) := by
  have hresolved {raw : String} {t : TypeRef} (ht : r.resolve raw = .inl t) :
      ∃ id, (id, t) ∈ r.vars ∧ t.raw? = some raw := by
    have hfound := r.resolve_cases raw
    rw [ht] at hfound
    cases hfound with
    | bound _ hfind hraw => exact ⟨_, Table.mem_of_find? hfind, hraw⟩
  have hwidened {text : String} (e : Enumeration) (htext : '=' ∉ text.toList) :
      Plain (widened (.enumeration e) text) := .append htext ⟨by decide, by decide⟩ (by decide)
  cases h with
  | yesNo _ _ _ => exact ⟨by decide, by decide⟩
  | @choice _ e _ _ _ _ _ hchosen =>
    refine hwidened e ?_
    cases hchosen with
    | defined hshared _ _ =>
      obtain ⟨node, -, hshared⟩ := Option.bind_eq_some_iff.mp hshared
      exact Registry.not_mem_keptIds _ (mem_of_sharedId? hshared)
    | found _ _ hold _ => exact hr.shared _ (mem_of_find?_eq_some hold)
    | own _ _ _ => simp [hclass, hid]
  | any _ => cases isOutput <;> exact ⟨by decide, by decide⟩
  | basic _ h =>
    unfold basicType? at h
    repeat' split at h
    all_goals cases h
    all_goals exact ⟨by decide, by decide⟩
  | known _ _ ht htext =>
    obtain ⟨id, hmem, hraw⟩ := hresolved ht
    have hplain := hr.vars _ hmem _ _ hraw htext
    have hwidened : widened t text = text := by
      cases t with
      | enumeration e => cases hraw
      | _ => rfl
    rwa [hwidened]
  | declared _ _ hid =>
    obtain ⟨n, rfl, -, -⟩ := Registry.of_resolve_inr hid
    exact plain_candidate _ n
  | dotted _ h => exact absurd himports h

theorem InputsRead.parameters {xs : List DeclaredInput} {inputs inputs' : Inputs}
    (h : InputsRead scope xs inputs f r inputs' f' r') (hr : r.Plain) (himports : r.imports = none)
    (hclass : '=' ∉ scope.classId.toList) :
    ∃ ps, inputs'.parameters = inputs.parameters ++ ps ∧ List.Forall₂ (fun x p =>
      p.id = Identifier.raw x.name ∧ p.default = x.shownDefault ∧ Plain p.hint) xs ps := by
  induction h with
  | nil _ _ _ => exact ⟨[], (append_nil _).symm, .nil⟩
  | @cons x rest inputs inputs₁ inputs' f f₁ f' r r₁ r' hfirst hrest ih =>
    have hreads := hfirst.reads himports
    obtain ⟨ps, hps, hall⟩ := ih (hr.of_reads hreads) (hreads.evolves.imports.trans himports)
    cases hfirst with
    | mk htyped =>
      have hplain := htyped.plain ⟨hr.vars, hr.shared⟩ himports hclass (not_mem_raw x.name)
      refine ⟨_ :: ps, by rw [hps, append_assoc]; rfl, .cons ⟨rfl, rfl, ?_⟩ hall⟩
      dsimp only
      split
      · exact .append hplain.1 ⟨by decide, by decide⟩ (by decide)
      · exact hplain

end Hinting

namespace Registry

variable {hiddenInputs : Bool} {maxEnumValues : Int} {r r' : Registry} {modules : Modules}
  {make : NodeEntry → Except Fault (Option String)} {info : Value} {name id : String}

/-- A node that is added to a registry gets a declaration with one parameter for each input, in the
order of the description. A parameter shows its default value if all that follow have one, and else
the value none in place of it, behind the same name and hint; after one that shows a default value
all do. -/
theorem declaration_of_addNode (hr : r.Reached Flowscript.Plain hiddenInputs maxEnumValues)
    (hname : Registering.named info = .ok name) (hnew : r.resolve name = .inr id)
    (hadd : (Registering.addNode modules make info).run r = (.ok (), r')) :
    ∃ declared inputs f r₁ head result rest,
      declaredInputs r.hiddenInputs info = .ok declared ∧
      ((Hinting.readInputs ⟨info, id, modules⟩).run ⟨[], "", []⟩).run (r.setVar id (.claimed id name)) =
        (.ok (inputs, f), r₁) ∧
      List.Forall₂ (fun x p => p.id = Identifier.raw x.name ∧ p.default = x.shownDefault) declared
        inputs.parameters ∧
      r'.nodeStubs = r.nodeStubs ++ ["class " ++ id ++ ":\n" ++ head ++ "\n" ++ "    def __new__(cls, " ++
        ", ".intercalate (Parameter.signature inputs.parameters) ++ ")" ++ result ++ ": ...\n" ++ rest] ∧
      (Parameter.signature inputs.parameters).Pairwise fun s t => '=' ∈ s.toList → '=' ∈ t.toList := by
  obtain ⟨hsound, hplain⟩ := hr.induct Plain (plain_empty _ _) fun _ _ h hstep => h.of_step hstep
  obtain ⟨n, hid, -, -⟩ := of_resolve_inr hnew
  have hclass : Flowscript.Plain id := hid ▸ plain_candidate name n
  have hclaimed : (r.setVar id (.claimed id name)).Plain := hplain.of_step (.claim hnew)
  obtain ⟨stub, types, findings, className, r₂, hread, rfl⟩ := Registering.made_of_run_ok hname hnew hadd
  have hstubs := (Registering.reads_readFor hsound.imports modules info name id).nodeStubs
  rw [hread] at hstubs
  obtain ⟨declared, inputs, f₁, r₁, _, _, _, _, doc, result, hrun, hdeclared, hinputs, -, -, -, rfl⟩ :=
    Hinting.of_run_readNode hread
  obtain ⟨ps, hps, hall⟩ := hinputs.parameters hclaimed hsound.imports hclass.1
  obtain rfl : inputs.parameters = ps := hps
  have hplains : ∀ p ∈ inputs.parameters, '=' ∉ p.id.toList ∧ Flowscript.Plain p.hint := by
    intro p hp
    obtain ⟨x, -, hid, -, hhint⟩ := exists_mem_of_forall₂ hall.flip hp
    exact ⟨hid ▸ not_mem_raw x.name, hhint⟩
  obtain ⟨head, hhead⟩ : ∃ head, declaration id doc inputs.parameters result _ = "class " ++ id ++ ":\n" ++
      head ++ "\n" ++ "    def __new__(cls, " ++ ", ".intercalate ((Parameter.dropDefaults
        inputs.parameters).map Parameter.text) ++ ")" ++ result ++ ": ...\n" ++ _ := ⟨_, rfl⟩
  rw [Parameter.map_text_dropDefaults fun p hp => (hplains p hp).2] at hhead
  exact ⟨declared, inputs, f₁, r₁, head, result, _, hdeclared, hrun,
    hall.imp fun _ _ h => ⟨h.1, h.2.1⟩, by rw [← hhead, hstubs]; rfl,
    Parameter.pairwise_signature fun p hp => ⟨(hplains p hp).1, (hplains p hp).2.1⟩⟩

def mixInfo : Value :=
  .dict [("name", .str "Mix"), ("display_name", .str "Mix"), ("description", .str ""),
    ("category", .str "image"), ("output_node", .bool false), ("output", .list [.str "MODEL"]),
    ("output_name", .list [.null]), ("input", .dict [
      ("required", .dict [("how much", .list [.str "INT", .dict [("default", .int 3)]]),
        ("model", .list [.str "MODEL"]), ("mode", .list [.list [.str "a=b", .str "c"]])]),
      ("optional", .dict [("mask", .list [.str "MASK"])])])]

def mixRegistry : Registry :=
  ((Registering.addEmbeddings (.ok (.list [.str "flaw"]))).run (empty true 2000 false)).2

/-- The first default value gives way to the value none, and the others stay. -/
theorem declaration_of_addNode_mix :
    ∃ r' head result rest, mixRegistry.Reached Flowscript.Plain true 2000 ∧
      Registering.named mixInfo = .ok "Mix" ∧ mixRegistry.resolve "Mix" = .inr "Mix" ∧
      (Registering.addNode .none (fun _ => .ok none) mixInfo).run mixRegistry = (.ok (), r') ∧
      r'.nodeStubs = ["class " ++ "Mix" ++ ":\n" ++ head ++ "\n" ++ "    def __new__(cls, " ++
        ", ".intercalate ["how_much: int | None", "model: Model", "mode: Mix.mode | str = 'a=b'",
          "mask: Mask | None = None"] ++ ")" ++ result ++ ": ...\n" ++ rest] := by
  have hreached : mixRegistry.Reached Flowscript.Plain true 2000 := .init .empty _
  have hname : Registering.named mixInfo = .ok "Mix" := rfl
  have hnew : mixRegistry.resolve "Mix" = .inr "Mix" :=
    Sum.getRight?_eq_some_iff.mp (by decide +kernel)
  have hok : ((Registering.addNode .none (fun _ => .ok none) mixInfo).run mixRegistry).1.isOk = true := by
    decide +kernel
  have hshown : (((Hinting.readInputs ⟨mixInfo, "Mix", .none⟩).run ⟨[], "", []⟩).run
      (mixRegistry.setVar "Mix" (.claimed "Mix" "Mix"))).1.toOption.map
        (fun p => Parameter.signature p.1.parameters) =
      some ["how_much: int | None", "model: Model", "mode: Mix.mode | str = 'a=b'",
        "mask: Mask | None = None"] := by
    decide +kernel
  cases hadd : (Registering.addNode .none (fun _ => .ok none) mixInfo).run mixRegistry with
  | mk result r' =>
    rw [hadd] at hok
    cases result with
    | error e => cases hok
    | ok _ =>
      obtain ⟨declared, inputs, f, r₁, head, result, rest, -, hrun, -, hstubs, -⟩ :=
        declaration_of_addNode hreached hname hnew hadd
      rw [hrun] at hshown
      have hsignature : Parameter.signature inputs.parameters = _ := Option.some.inj hshown
      rw [hsignature] at hstubs
      exact ⟨r', head, result, rest, hreached, hname, hnew, rfl, hstubs⟩

end Registry

end Flowscript
