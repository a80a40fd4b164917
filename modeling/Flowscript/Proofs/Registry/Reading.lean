import Flowscript.Proofs.Registry.Stages
import Flowscript.Value.Record

/-!
# How a description is read

A description is read input by input, and then output by output, twice. Each of them is given a type:
a truth value, an enumeration of its choices, a basic type, or a type of data that is known or new. A
choice becomes the enumeration that its input defines for all nodes, one that has the same values, or
an enumeration of its own. These relations say what a successful reading finds and leaves.
-/

namespace Flowscript

open List

def Value.putGiven (key : String) (v : Value) (entries : List (String × Value)) : List (String × Value) :=
  match v with
  | .null => entries
  | v => put key v entries

theorem Value.putGiven_of_ne {v : Value} (h : v ≠ .null) (key : String) (entries : List (String × Value)) :
    putGiven key v entries = put key v entries := by
  unfold putGiven
  split
  · contradiction
  · rfl

/-! ## Declared inputs -/

structure DeclaredInput where
  name : String
  declared : Value
  isOptional : Bool

namespace DeclaredInput

def parts (declared : Value) : Except Fault (Value × List (String × Value)) :=
  match declared with
  | .str _ => .ok (declared, [])
  | _ => do
    let type ← declared.item (.int 0)
    if (← declared.length) ≤ 1 then return (type, [])
    return (type, (← declared.item (.int 1)).fields)

def type (input : DeclaredInput) : Value := ((parts input.declared).toOption.map Prod.fst).getD .null

def configured (input : DeclaredInput) : Value :=
  ((parts input.declared).toOption.bind fun p => Value.lookup "default" p.2).getD .null

/-- The default value that a type suggests: the truth value of a choice between yes and no, and the
first value of any other choice. -/
def suggested (type : Value) : Value :=
  match type with
  | .list items | .tuple items => match Choice.isYesNo type, Choice.startsWithYes type with
    | .ok true, .ok b => .bool b
    | _, _ => items.headD .null
  | _ => .null

/-- The default value of an input: the configured one, or else the one that its type suggests. -/
def default (input : DeclaredInput) : Value :=
  match input.configured with
  | .null => suggested input.type
  | v => v

/-- The text of the default value in a declaration; an optional input has one in any case. -/
def shownDefault (input : DeclaredInput) : Option String :=
  match input.default with
  | .null => if input.isOptional then some "None" else none
  | v => some (Literal.ofValue v)

variable {x : DeclaredInput}

theorem shownDefault_of_null (h : x.default = .null) :
    x.shownDefault = if x.isOptional then some "None" else none := by
  rw [shownDefault, h]

theorem shownDefault_of_ne (h : x.default ≠ .null) : x.shownDefault = some (Literal.ofValue x.default) := by
  unfold shownDefault
  split
  · contradiction
  · rfl

end DeclaredInput

def declaredIn (info : Value) (group : String × Bool) : Except Fault (List DeclaredInput) := do
  match ← NodeInfo.group? info group.1 with
  | none => .ok []
  | some g => .ok ((← g.entries).map fun entry => ⟨entry.1, entry.2, group.2⟩)

def declaredInputs (hidden : Bool) (info : Value) : Except Fault (List DeclaredInput) := do
  .ok (← (Hinting.groups hidden).mapM (declaredIn info)).flatten

def outputSlot (declared : Value × Value) : Except Fault (String × Value) := do
  .ok (← Identifier.nameOf declared.2, declared.1)

def outputSlots (info : Value) : Except Fault (List (String × Value)) := do
  (← Hinting.outputNames info).mapM outputSlot

def keyTexts (texts : List String) : List (String × Value) :=
  Value.merge [] (texts.map fun s => (modelName s, .str s))

def Findings.attach (f : Findings) (id : String) (e : Enumeration) (stub : String) : Findings :=
  { f with attached := Table.put id e f.attached, enumStubs := f.enumStubs ++ "\n" ++ stub }

namespace Hinting

variable {α β : Type} {scope : Scope} {f f' : Findings} {r r' : Registry} {b : β}
  {id name stub text : String} {suggested type : Value} {items : List Value} {t : TypeRef} {isOutput : Bool}
  {inputs inputs' : Inputs}

/-! ## Steps that succeed -/

theorem of_run_check {result : Except Fault α} {a : α}
    (h : ((check result).run f).run r = (.ok (a, f'), r')) : result = .ok a ∧ f' = f ∧ r' = r := by
  cases result with
  | error e => cases h
  | ok b =>
    cases h
    exact ⟨rfl, rfl, rfl⟩

theorem of_run_pure {a b : α} (h : ((pure a : Hinting α).run f).run r = (.ok (b, f'), r')) :
    b = a ∧ f' = f ∧ r' = r := by
  cases h
  exact ⟨rfl, rfl, rfl⟩

theorem of_run_bind {x : Hinting α} {g : α → Hinting β} (h : ((x >>= g).run f).run r = (.ok (b, f'), r')) :
    ∃ a f₁ r₁, (x.run f).run r = (.ok (a, f₁), r₁) ∧ ((g a).run f₁).run r₁ = (.ok (b, f'), r') := by
  obtain ⟨p, r₁, hx, hg⟩ := Flowscript.of_run_bind h
  exact ⟨p.1, p.2, r₁, hx, hg⟩

theorem of_run_check_bind {result : Except Fault α} {g : α → Hinting β}
    (h : ((check result >>= g).run f).run r = (.ok (b, f'), r')) :
    ∃ a, result = .ok a ∧ ((g a).run f).run r = (.ok (b, f'), r') := by
  obtain ⟨a, f₁, r₁, hcheck, hrest⟩ := of_run_bind h
  obtain ⟨ha, rfl, rfl⟩ := of_run_check hcheck
  exact ⟨a, ha, hrest⟩

theorem of_run_registry_bind {g : Registry → Hinting β}
    (h : ((registry >>= g).run f).run r = (.ok (b, f'), r')) :
    ((g r).run f).run r = (.ok (b, f'), r') := h

theorem of_run_note_bind {line : String} {g : Unit → Hinting β}
    (h : ((note line >>= g).run f).run r = (.ok (b, f'), r')) :
    ((g ()).run f).run (r.note line) = (.ok (b, f'), r') := h

theorem of_run_attach_bind {e : Enumeration} {g : Unit → Hinting β}
    (h : ((attach id e stub >>= g).run f).run r = (.ok (b, f'), r')) :
    ((g ()).run (f.attach id e stub)).run r = (.ok (b, f'), r') := h

/-! ## Choices -/

def sharedFor (scope : Scope) (name : String) : Option String :=
  ((scope.info.entry "name").toOption.bind Value.text?).bind fun node => Registry.sharedId? node name

inductive Chosen (scope : Scope) (name id : String) (type : Value) (items : List Value) (r : Registry) :
    Enumeration → String → Registry → Prop where
  | defined {sid stub : String} {e : Enumeration} {keyed : List (String × Value)}
      (hid : sharedFor scope name = some sid) (hkeyed : keyByName items = .ok keyed)
      (he : Enumeration.ofTexts sid "" keyed = .ok (stub, e)) :
    Chosen scope name id type items r e sid { r.setVar sid (.enumeration e) with
      sharedStubs := Table.put sid stub r.sharedStubs
      sharedValues := Table.put sid type r.sharedValues }
  | found {sid : String} {old : Value} {e : Enumeration} (hid : sharedFor scope name = none)
      (hitems : items ≠ []) (hold : r.sharedValues.find? (fun entry => entry.2 == type) = some (sid, old))
      (he : Table.find? sid r.vars = some (.enumeration e)) : Chosen scope name id type items r e sid r
  | own {log : String} {e : Enumeration} (hid : sharedFor scope name = none)
      (hunshared : items ≠ [] → ∀ sid old, r.sharedValues.find? (fun entry => entry.2 == type) =
        some (sid, old) → ∀ e, Table.find? sid r.vars ≠ some (.enumeration e))
      (he : ∀ texts, items = texts.map .str → (texts.length : Int) ≤ r.maxEnumValues →
        ∃ stub, Enumeration.ofTexts id margin (keyTexts texts) = .ok (stub, e)) :
    Chosen scope name id type items r e (scope.classId ++ "." ++ id) { r with log := log }

/-- The type, the text and the suggested default of an input or output, with what is found and the
registry then. -/
inductive Typed (scope : Scope) (isOutput : Bool) (name id : String) (type : Value) (f : Findings)
    (r : Registry) : TypeRef → String → Value → Findings → Registry → Prop where
  | yesNo {items : List Value} {b : Bool} (hitems : type = .list items ∨ type = .tuple items)
      (h : Choice.isYesNo type = .ok true) (hb : Choice.startsWithYes type = .ok b) :
    Typed scope isOutput name id type f r (.basic "bool") "bool" (.bool b) f r
  | choice {items : List Value} {e : Enumeration} {text stub : String} {r' : Registry}
      (hitems : type = .list items ∨ type = .tuple items) (h : Choice.isYesNo type = .ok false)
      (hchosen : Chosen scope name id type items r e text r') :
    Typed scope isOutput name id type f r (.enumeration e) text (items.headD .null)
      (f.attach id e stub) r'
  | any (hplain : ∀ items, type ≠ .list items ∧ type ≠ .tuple items) :
    Typed scope isOutput name id type f r (if isOutput then .anyOutput else .basic "Any") "Any" .null f r
  | basic {text : String} (hplain : ∀ items, type ≠ .list items ∧ type ≠ .tuple items)
      (h : basicType? type = some text) :
    Typed scope isOutput name id type f r (.basic text) text .null f r
  | known {raw text : String} {t : TypeRef}
      (hplain : ∀ items, type ≠ .list items ∧ type ≠ .tuple items)
      (hraw : Identifier.nameOf type = .ok raw) (ht : r.resolve raw = .inl t)
      (htext : t.name? = some text) : Typed scope isOutput name id type f r t text .null f r
  | declared {raw typeId : String} (hplain : ∀ items, type ≠ .list items ∧ type ≠ .tuple items)
      (hraw : Identifier.nameOf type = .ok raw) (hid : r.resolve raw = .inr typeId) :
    Typed scope isOutput name id type f r (.data typeId raw) typeId .null f (Hinting.declared r raw typeId)
  | dotted {text : String} {r' : Registry} (hplain : ∀ items, type ≠ .list items ∧ type ≠ .tuple items)
      (h : r.imports ≠ none) : Typed scope isOutput name id type f r .nothing text .null f r'

theorem textValues_map (place : String) (texts : List String) :
    textValues place (texts.map .str) = pure (keyTexts texts) := by
  unfold textValues keyTexts
  generalize ([] : List (String × Value)) = acc
  induction texts generalizing acc with
  | nil => rfl
  | cons s rest ih => exact ih (Value.put (modelName s) (.str s) acc)

theorem exists_takeInt (n : Int) (values : List α) : ∃ k, takeInt n values = values.take k := by
  unfold takeInt
  split
  · exact ⟨_, rfl⟩
  · exact ⟨_, rfl⟩

theorem of_run_limit {place : String} {values kept : List Value}
    (h : ((limit place values).run f).run r = (.ok (kept, f'), r')) :
    (∃ k, kept = values.take k) ∧ ((values.length : Int) ≤ r.maxEnumValues → kept = values) := by
  replace h := of_run_registry_bind h
  dsimp only at h
  split at h
  · rename_i hmany
    replace h := of_run_note_bind h
    obtain ⟨rfl, -, -⟩ := of_run_pure h
    exact ⟨exists_takeInt _ _, fun hfew => absurd hmany (Int.not_lt.mpr hfew)⟩
  · obtain ⟨rfl, -, -⟩ := of_run_pure h
    exact ⟨⟨kept.length, by simp⟩, fun _ => rfl⟩

theorem of_run_enumerationOf {place shown : String} {values : List Value} {e : Enumeration}
    (h : ((enumerationOf place id values shown).run f).run r = (.ok ((stub, e), f'), r')) :
    values ≠ [] ∧ ∀ texts, values = texts.map .str →
      Enumeration.ofTexts id margin (keyTexts texts) = .ok (stub, e) := by
  constructor
  · rintro rfl
    cases h
  · rintro texts rfl
    cases texts with
    | nil => cases h
    | cons s rest =>
      have htexts : ((textValues place ((s :: rest).map .str) >>=
          fun keyed => check (Enumeration.ofTexts id margin keyed)).run f).run r =
            (.ok ((stub, e), f'), r') := h
      rw [textValues_map, pure_bind] at htexts
      exact (of_run_check htexts).1

theorem of_run_shared? (id : String) {shared : Option (String × Enumeration)}
    (hitems : type.iterate = .ok items)
    (h : ((shared? scope name type).run f).run r = (.ok (shared, f'), r')) :
    f' = f ∧ match shared with
      | some (sid, e) => Chosen scope name id type items r e sid r'
      | none => r' = r ∧ sharedFor scope name = none ∧ (items ≠ [] → ∀ sid old,
          r.sharedValues.find? (fun entry => entry.2 == type) = some (sid, old) →
            ∀ e, Table.find? sid r.vars ≠ some (.enumeration e)) := by
  unfold shared? at h
  obtain ⟨nodeName, hname, h⟩ := of_run_check_bind h
  have hfor : sharedFor scope name = nodeName.text?.bind fun n => Registry.sharedId? n name := by
    rw [sharedFor, hname]
    rfl
  split at h
  · rename_i sid hsid
    obtain ⟨⟨stub, e⟩, hmade, h⟩ := of_run_check_bind h
    rw [hitems, ok_bind] at hmade
    obtain ⟨keyed, hkeyed, he⟩ := ok_of_bind hmade
    cases h
    exact ⟨rfl, .defined (hfor.trans hsid) hkeyed he⟩
  · rename_i hsid
    have hnone := hfor.trans hsid
    replace h := of_run_registry_bind h
    obtain ⟨n, hn, h⟩ := of_run_check_bind h
    have hlength : n = items.length := by
      rw [Value.length, hitems] at hn
      exact (Except.ok.inj hn).symm
    split at h
    · rename_i hzero
      obtain ⟨rfl, rfl, rfl⟩ := of_run_pure h
      have hnil : items = [] := eq_nil_of_length_eq_zero (by simpa [hlength] using hzero)
      exact ⟨rfl, rfl, hnone, fun hne => absurd hnil hne⟩
    · rename_i hne
      have hitems' : items ≠ [] := by
        rintro rfl
        exact hne (by simp [hlength])
      split at h
      · rename_i hold
        obtain ⟨rfl, rfl, rfl⟩ := of_run_pure h
        refine ⟨rfl, rfl, hnone, fun _ sid old hfind => ?_⟩
        rw [hold] at hfind
        cases hfind
      · rename_i sid old hold
        split at h
        · rename_i e he
          obtain ⟨rfl, rfl, rfl⟩ := of_run_pure h
          exact ⟨rfl, .found hnone hitems' hold he⟩
        · rename_i hother
          obtain ⟨rfl, rfl, rfl⟩ := of_run_pure h
          refine ⟨rfl, rfl, hnone, fun _ sid' old' hfind e he => ?_⟩
          rw [hold] at hfind
          cases hfind
          exact hother e he

theorem of_run_choiceHint {kept : List Value} (hitems : type.iterate = .ok items)
    (h : ((choiceHint scope name id type).run f).run r = (.ok ((t, text, kept), f'), r')) :
    ∃ e stub, t = .enumeration e ∧ f' = f.attach id e stub ∧ kept.headD .null = items.headD .null ∧
      Chosen scope name id type items r e text r' := by
  unfold choiceHint at h
  obtain ⟨items', hitems', hrun⟩ := of_run_check_bind h
  obtain rfl := Except.ok.inj (hitems.symm.trans hitems')
  obtain ⟨shared, f₁, r₁, hshared, hrest⟩ := of_run_bind hrun
  have hchosen := of_run_shared? id hitems hshared
  cases shared with
  | some p =>
    obtain ⟨sid, e⟩ := p
    obtain ⟨rfl, hchosen⟩ := hchosen
    cases of_run_attach_bind hrest
    exact ⟨e, _, rfl, rfl, rfl, hchosen⟩
  | none =>
    obtain ⟨rfl, rfl, hnone, hunshared⟩ := hchosen
    obtain ⟨nodeName, -, hown⟩ := of_run_check_bind hrest
    split at hown
    · rename_i hempty
      obtain rfl : items = [] := isEmpty_iff.mp hempty
      obtain ⟨⟨stub, e⟩, he, hown⟩ := of_run_check_bind hown
      cases of_run_attach_bind hown
      refine ⟨e, stub, rfl, rfl, rfl, .own hnone hunshared fun texts htexts _ => ?_⟩
      obtain rfl := map_eq_nil_iff.mp htexts.symm
      exact ⟨stub, he⟩
    · obtain ⟨kept', f₂, r₂, hlimit, hown⟩ := of_run_bind hown
      obtain ⟨⟨stub, e⟩, f₃, r₃, hmade, hown⟩ := of_run_bind hown
      obtain ⟨⟨k, hk⟩, hall⟩ := of_run_limit hlimit
      obtain ⟨hne, htexts⟩ := of_run_enumerationOf hmade
      obtain ⟨rfl, log, rfl⟩ := (noting_limit _ _).of_run hlimit
      obtain ⟨rfl, log', rfl⟩ := (noting_enumerationOf _ _ _ _).of_run hmade
      cases of_run_attach_bind hown
      refine ⟨e, stub, rfl, rfl, ?_, .own hnone hunshared fun texts heq hfew => ⟨stub, htexts texts ?_⟩⟩
      · cases k with
        | zero => exact absurd hk hne
        | succ k =>
          rw [hk]
          cases items <;> rfl
      · rw [hall (by rw [heq, length_map]; exact hfew), heq]

theorem typed_of_choice (hitems : type = .list items ∨ type = .tuple items)
    (h : ((do
      if ← check (Choice.isYesNo type) then
        return (TypeRef.basic "bool", "bool", .bool (← check (Choice.startsWithYes type)))
      else
        let hint ← choiceHint scope name id type
        return (hint.1, hint.2.1, hint.2.2.headD .null) : Hinting (TypeRef × String × Value)).run f).run r =
          (.ok ((t, text, suggested), f'), r')) :
    Typed scope isOutput name id type f r t text suggested f' r' := by
  have hiterate : type.iterate = .ok items := by rcases hitems with rfl | rfl <;> rfl
  obtain ⟨yesNo, hyesNo, hrun⟩ := of_run_check_bind h
  cases yesNo with
  | true =>
    obtain ⟨b, hb, hrun⟩ := of_run_check_bind hrun
    cases hrun
    exact .yesNo hitems hyesNo hb
  | false =>
    obtain ⟨⟨t', text', kept⟩, f₁, r₁, hhint, hrest⟩ := of_run_bind hrun
    obtain ⟨e, stub, rfl, rfl, hhead, hchosen⟩ := of_run_choiceHint hiterate hhint
    cases hrest
    rw [hhead]
    exact .choice hitems hyesNo hchosen

theorem of_run_dataHint (hplain : ∀ items, type ≠ .list items ∧ type ≠ .tuple items)
    (h : ((dataHint scope name type).run f).run r = (.ok ((t, text), f'), r')) :
    Typed scope isOutput name id type f r t text .null f' r' := by
  unfold dataHint at h
  replace h := of_run_registry_bind h
  split at h
  · rename_i hdots
    obtain ⟨rfl, rfl⟩ := of_run_dottedHint h
    refine .dotted hplain fun hnone => ?_
    simp [hnone] at hdots
  · obtain ⟨t', f₁, r₁, hdata, hrest⟩ := of_run_bind h
    cases hraw : Identifier.nameOf type with
    | error e =>
      unfold dataType at hdata
      rw [hraw] at hdata
      cases hdata
    | ok raw =>
      rw [run_dataType hraw] at hdata
      cases hresolve : r.resolve raw with
      | inl known =>
        rw [hresolve] at hdata
        cases hdata
        split at hrest
        · rename_i htext
          cases hrest
          exact .known hplain hraw hresolve htext
        · cases hrest
      | inr typeId =>
        rw [hresolve] at hdata
        cases hdata
        cases hrest
        exact .declared hplain hraw hresolve

theorem of_run_typeHint
    (h : ((typeHint scope isOutput name id type).run f).run r = (.ok ((t, text, suggested), f'), r')) :
    Typed scope isOutput name id type f r t text suggested f' r' := by
  unfold typeHint at h
  split at h
  · exact typed_of_choice (.inl rfl) h
  · exact typed_of_choice (.inr rfl) h
  · rename_i hlist htuple
    have hplain : ∀ items, type ≠ .list items ∧ type ≠ .tuple items :=
      fun items => ⟨hlist items, htuple items⟩
    split at h
    · cases h
      exact .any hplain
    · split at h
      · rename_i basic hbasic
        cases h
        refine .basic hplain ?_
        cases isOutput with
        | true => cases hbasic
        | false => exact hbasic
      · obtain ⟨⟨t', text'⟩, f₁, r₁, hdata, hrest⟩ := of_run_bind h
        cases hrest
        exact of_run_dataHint hplain hdata

/-! ## Inputs -/

theorem Typed.reads (h : Typed scope isOutput name id type f r t text suggested f' r')
    (hr : r.imports = none) :
    r.Reads r' := by
  cases h with
  | yesNo _ _ _ | any _ | basic _ _ | known _ _ _ _ => exact .refl
  | @choice items e _ _ _ hitems _ hchosen =>
    have hiterate : type.iterate = .ok items := by rcases hitems with rfl | rfl <;> rfl
    cases hchosen with
    | @defined _ _ _ _ hid hkeyed he =>
      obtain ⟨node, -, hshared⟩ := Option.bind_eq_some_iff.mp hid
      exact .single (.share (mem_of_sharedId? hshared) (by rw [hiterate]; exact hkeyed) he)
    | found _ _ _ _ => exact .refl
    | own _ _ _ => exact .single (.log _)
  | declared _ _ hid => exact .single (.declare hid)
  | dotted _ himports => exact absurd hr himports

theorem Typed.defaults_eq (h : Typed scope isOutput name id type f r t text suggested f' r') :
    f'.defaults = f.defaults := by
  cases h <;> rfl

theorem Typed.suggested_eq (h : Typed scope isOutput name id type f r t text suggested f' r') :
    suggested = DeclaredInput.suggested type := by
  have hnull (hplain : ∀ items, type ≠ .list items ∧ type ≠ .tuple items) :
      Value.null = DeclaredInput.suggested type := by
    unfold DeclaredInput.suggested
    split
    · exact absurd rfl (hplain _).1
    · exact absurd rfl (hplain _).2
    · rfl
  cases h with
  | yesNo hitems h hb =>
    rcases hitems with rfl | rfl
    · simp only [DeclaredInput.suggested, h, hb]
    · simp only [DeclaredInput.suggested, h, hb]
  | choice hitems h _ =>
    rcases hitems with rfl | rfl
    · simp only [DeclaredInput.suggested, h]
    · simp only [DeclaredInput.suggested, h]
  | any hplain => exact hnull hplain
  | basic hplain _ => exact hnull hplain
  | known hplain _ _ _ => exact hnull hplain
  | declared hplain _ _ => exact hnull hplain
  | dotted hplain _ => exact hnull hplain

inductive InputRead (scope : Scope) (x : DeclaredInput) (inputs : Inputs) (f : Findings) (r : Registry) :
    Inputs → Findings → Registry → Prop where
  | mk {t : TypeRef} {text log : String} {f₁ : Findings} {r' : Registry}
      {configs : List (String × List (String × Value))} {suggested : Value}
      (h : Typed scope false x.name (Identifier.raw x.name) x.type f { r with log := log } t text
        suggested f₁ r') :
    InputRead scope x inputs f r
      ⟨inputs.parameters ++ [⟨Identifier.raw x.name,
        if x.isOptional then widened t text ++ " | None" else widened t text, x.shownDefault⟩], configs⟩
      { f₁ with defaults := Value.putGiven (Identifier.raw x.name) x.default f₁.defaults } r'

theorem of_run_readInput {declared : Value} {config : List (String × Value)}
    {configs configs' : List (String × List (String × Value))}
    (h : ((readInput scope id declared configs).run f).run r = (.ok ((type, config, configs'), f'), r')) :
    DeclaredInput.parts declared = .ok (type, config) := by
  unfold readInput at h
  split at h
  · cases h
    rfl
  · rename_i hne
    obtain ⟨type', htype, hrest⟩ := of_run_check_bind h
    obtain ⟨n, hn, hrest⟩ := of_run_check_bind hrest
    unfold DeclaredInput.parts
    split
    · exact absurd rfl (hne _)
    rw [htype, ok_bind, hn, ok_bind]
    split at hrest
    · rename_i hfew
      cases hrest
      rw [if_pos hfew]
      rfl
    · rename_i hmore
      obtain ⟨config', hconfig, hrest⟩ := of_run_check_bind hrest
      rw [if_neg hmore, hconfig, ok_bind]
      split at hrest
      · cases hrest
        rfl
      · rename_i hnodict
        have hdone : type' = type ∧ config = [] := by
          split at hrest
          · cases hrest
            exact ⟨rfl, rfl⟩
          · cases hrest
            exact ⟨rfl, rfl⟩
        obtain ⟨rfl, rfl⟩ := hdone
        have hempty : config'.fields = [] := by
          unfold Value.fields
          split
          · exact absurd rfl (hnodict _)
          · rfl
        rw [hempty]
        rfl

theorem of_run_input {x : DeclaredInput} {hint : Hint}
    (h : ((input scope x.name x.isOptional x.configured x.type).run f).run r = (.ok (hint, f'), r')) :
    ∃ text suggested f₁,
      Typed scope false x.name (Identifier.raw x.name) x.type f r hint.type text suggested f₁ r' ∧
      hint.text = (if x.isOptional then widened hint.type text ++ " | None" else widened hint.type text) ∧
      hint.default = x.shownDefault ∧
      f' = { f₁ with defaults := Value.putGiven (Identifier.raw x.name) x.default f₁.defaults } := by
  unfold input at h
  obtain ⟨⟨t, text, suggested⟩, f₁, r₁, hhint, hrest⟩ := of_run_bind h
  have htyped := of_run_typeHint hhint
  obtain rfl := htyped.suggested_eq
  dsimp only at hrest
  split at hrest
  · rename_i hnull
    have hnull : x.default = .null := hnull
    cases hrest
    refine ⟨text, _, _, htyped, rfl, (DeclaredInput.shownDefault_of_null hnull).symm, ?_⟩
    rw [hnull]
    rfl
  · rename_i hne
    have hne : x.default ≠ .null := hne
    cases hrest
    refine ⟨text, _, f₁, htyped, rfl, (DeclaredInput.shownDefault_of_ne hne).symm, ?_⟩
    rw [Value.putGiven_of_ne hne]
    rfl

theorem of_run_addInput {x : DeclaredInput}
    (h : ((addInput scope x.isOptional inputs x.name x.declared).run f).run r = (.ok (inputs', f'), r')) :
    InputRead scope x inputs f r inputs' f' r' := by
  unfold addInput at h
  obtain ⟨⟨type, config, configs⟩, f₁, r₁, hread, hrest⟩ := of_run_bind h
  obtain ⟨hint, f₂, r₂, hinput, hrest⟩ := of_run_bind hrest
  have hparts := of_run_readInput hread
  obtain ⟨rfl, log, rfl⟩ := (noting_readInput _ _ _).of_run hread
  have htype : x.type = type := by rw [DeclaredInput.type, hparts]; rfl
  have hconfigured : x.configured = (Value.lookup "default" config).getD .null := by
    rw [DeclaredInput.configured, hparts]
    rfl
  rw [← htype, ← hconfigured] at hinput
  obtain ⟨text, suggested, f₃, htyped, htext, hdefault, rfl⟩ := of_run_input hinput
  cases hrest
  rw [htext, hdefault]
  exact .mk htyped

inductive InputsRead (scope : Scope) : List DeclaredInput → Inputs → Findings → Registry →
    Inputs → Findings → Registry → Prop where
  | nil (inputs : Inputs) (f : Findings) (r : Registry) : InputsRead scope [] inputs f r inputs f r
  | cons {x : DeclaredInput} {rest : List DeclaredInput} {inputs inputs₁ inputs' : Inputs}
      {f f₁ f' : Findings} {r r₁ r' : Registry} (hfirst : InputRead scope x inputs f r inputs₁ f₁ r₁)
      (hrest : InputsRead scope rest inputs₁ f₁ r₁ inputs' f' r') :
    InputsRead scope (x :: rest) inputs f r inputs' f' r'

theorem InputRead.reads {x : DeclaredInput} (h : InputRead scope x inputs f r inputs' f' r')
    (hr : r.imports = none) : r.Reads r' := by
  cases h with
  | mk htyped => exact (Relation.ReflTransGen.single (.log _)).trans (htyped.reads hr)

theorem InputsRead.reads {xs : List DeclaredInput} (h : InputsRead scope xs inputs f r inputs' f' r')
    (hr : r.imports = none) : r.Reads r' := by
  induction h with
  | nil _ _ _ => exact .refl
  | cons hfirst _ ih =>
    have hreads := hfirst.reads hr
    exact hreads.trans (ih (hreads.evolves.imports.trans hr))

theorem InputsRead.trans {xs ys : List DeclaredInput} {inputs₁ : Inputs} {f₁ : Findings} {r₁ : Registry}
    (h : InputsRead scope xs inputs f r inputs₁ f₁ r₁)
    (h' : InputsRead scope ys inputs₁ f₁ r₁ inputs' f' r') :
    InputsRead scope (xs ++ ys) inputs f r inputs' f' r' := by
  induction h with
  | nil _ _ _ => exact h'
  | cons hfirst _ ih => exact .cons hfirst (ih h')

theorem inputsRead_entries {isOptional : Bool} {entries : List (String × Value)}
    (h : ((entries.foldlM (fun inputs entry => addInput scope isOptional inputs entry.1 entry.2)
      inputs).run f).run r = (.ok (inputs', f'), r')) :
    InputsRead scope (entries.map fun entry => ⟨entry.1, entry.2, isOptional⟩) inputs f r inputs' f' r' := by
  induction entries generalizing inputs f r with
  | nil =>
    obtain ⟨rfl, rfl, rfl⟩ := of_run_pure h
    exact .nil inputs' f' r'
  | cons entry rest ih =>
    rw [foldlM_cons] at h
    obtain ⟨inputs₁, f₁, r₁, hfirst, hrest⟩ := of_run_bind h
    exact .cons (of_run_addInput (x := ⟨entry.1, entry.2, isOptional⟩) hfirst) (ih hrest)

theorem of_run_readInputs (h : ((readInputs scope).run f).run r = (.ok (inputs, f'), r')) :
    ∃ declared, declaredInputs r.hiddenInputs scope.info = .ok declared ∧
      InputsRead scope declared ⟨[], []⟩ f r inputs f' r' := by
  unfold readInputs at h
  replace h := of_run_registry_bind h
  unfold declaredInputs
  generalize groups r.hiddenInputs = listed at h ⊢
  generalize (⟨[], []⟩ : Inputs) = before at h ⊢
  induction listed generalizing before f r with
  | nil =>
    obtain ⟨rfl, rfl, rfl⟩ := of_run_pure h
    exact ⟨[], rfl, .nil _ _ _⟩
  | cons group rest ih =>
    rw [foldlM_cons] at h
    obtain ⟨inputs₁, f₁, r₁, hfirst, hrest⟩ := of_run_bind h
    obtain ⟨declared, hdeclared, hread⟩ := ih inputs₁ hrest
    obtain ⟨first, hgroup, hread₁⟩ : ∃ first, declaredIn scope.info group = .ok first ∧
        InputsRead scope first before f r inputs₁ f₁ r₁ := by
      obtain ⟨g, hg, hfirst⟩ := of_run_check_bind hfirst
      unfold declaredIn
      rw [hg, ok_bind]
      cases g with
      | none =>
        obtain ⟨rfl, rfl, rfl⟩ := of_run_pure hfirst
        exact ⟨[], rfl, .nil _ _ _⟩
      | some g =>
        obtain ⟨entries, hentries, hfirst⟩ := of_run_check_bind hfirst
        dsimp only
        rw [hentries]
        exact ⟨_, rfl, inputsRead_entries hfirst⟩
    obtain ⟨groups', hgroups, hflat⟩ := ok_of_bind hdeclared
    cases hflat
    refine ⟨first ++ groups'.flatten, ?_, hread₁.trans hread⟩
    rw [mapM_cons, hgroup, ok_bind, hgroups]
    rfl

/-! ## Outputs -/

inductive OutputsRead (scope : Scope) : List (String × Value) → List TypeRef → Findings → Registry →
    Findings → Registry → Prop where
  | nil (f : Findings) (r : Registry) : OutputsRead scope [] [] f r f r
  | cons {name text : String} {type suggested : Value} {t : TypeRef} {rest : List (String × Value)}
      {types : List TypeRef} {f f₁ f' : Findings} {r r₁ r' : Registry}
      (hfirst : Typed scope true name (Identifier.raw name) type f r t text suggested f₁ r₁)
      (hrest : OutputsRead scope rest types f₁ r₁ f' r') :
    OutputsRead scope ((name, type) :: rest) (t :: types) f r f' r'

theorem outputsRead_mapM {g : Hint → β} {outputs : List (Value × Value)} {bs : List β}
    (h : ((outputs.mapM fun (declared : Value × Value) => do
      return g (← output scope declared.2 declared.1)).run f).run r = (.ok (bs, f'), r')) :
    ∃ slots, ∃ hints : List Hint, outputs.mapM outputSlot = .ok slots ∧ bs = hints.map g ∧
      OutputsRead scope slots (hints.map Hint.type) f r f' r' := by
  induction outputs generalizing f r bs with
  | nil =>
    obtain ⟨rfl, rfl, rfl⟩ := of_run_pure h
    exact ⟨[], [], rfl, rfl, .nil _ _⟩
  | cons declared rest ih =>
    rw [mapM_cons] at h
    obtain ⟨b, f₁, r₁, hfirst, hrest⟩ := of_run_bind h
    obtain ⟨bs', f₂, r₂, hrest, hpure⟩ := of_run_bind hrest
    obtain ⟨rfl, rfl, rfl⟩ := of_run_pure hpure
    obtain ⟨slots, hints, hslots, rfl, hread⟩ := ih hrest
    obtain ⟨hint, f₃, r₃, houtput, hpure⟩ := of_run_bind hfirst
    obtain ⟨rfl, rfl, rfl⟩ := of_run_pure hpure
    obtain ⟨name, hname, houtput⟩ := of_run_check_bind houtput
    obtain ⟨⟨t, text, suggested⟩, f₄, r₄, hhint, hpure⟩ := of_run_bind houtput
    obtain ⟨rfl, rfl, rfl⟩ := of_run_pure hpure
    refine ⟨(name, declared.1) :: slots, _ :: hints, ?_, rfl, .cons (of_run_typeHint hhint) hread⟩
    rw [mapM_cons, outputSlot, hname, ok_bind, hslots]
    rfl

theorem of_run_readOutputs {p : List TypeRef × String}
    (h : ((readOutputs scope).run f).run r = (.ok (p, f'), r')) :
    ∃ slots again f₁ r₁, outputSlots scope.info = .ok slots ∧ OutputsRead scope slots p.1 f r f₁ r₁ ∧
      OutputsRead scope slots again f₁ r₁ f' r' := by
  unfold readOutputs at h
  obtain ⟨outputs, houtputs, h⟩ := of_run_check_bind h
  obtain ⟨types, f₁, r₁, htypes, h⟩ := of_run_bind h
  obtain ⟨texts, f₂, r₂, htexts, hpure⟩ := of_run_bind h
  obtain ⟨rfl, rfl, rfl⟩ := of_run_pure hpure
  obtain ⟨slots, hints, hslots, rfl, hread⟩ := outputsRead_mapM (g := Hint.type) htypes
  obtain ⟨slots', hints', hslots', -, hread'⟩ := outputsRead_mapM (g := Hint.text) htexts
  obtain rfl := Except.ok.inj (hslots.symm.trans hslots')
  refine ⟨slots, _, f₁, r₁, ?_, hread, hread'⟩
  rw [outputSlots, houtputs, ok_bind, hslots]

/-! ## Whole descriptions -/

theorem of_run_readNode {types : List TypeRef}
    (h : ((readNode scope).run f).run r = (.ok ((stub, types), f'), r')) :
    ∃ declared inputs f₁ r₁ slots again f₂ r₂ doc result,
      ((readInputs scope).run f).run r = (.ok (inputs, f₁), r₁) ∧
      declaredInputs r.hiddenInputs scope.info = .ok declared ∧
      InputsRead scope declared ⟨[], []⟩ f r inputs f₁ r₁ ∧
      outputSlots scope.info = .ok slots ∧ OutputsRead scope slots types f₁ r₁ f₂ r₂ ∧
      OutputsRead scope slots again f₂ r₂ f' r' ∧
      stub = declaration scope.classId doc inputs.parameters result f'.enumStubs := by
  unfold readNode at h
  obtain ⟨inputs, f₁, r₁, hinputs, h⟩ := of_run_bind h
  obtain ⟨⟨types', result⟩, f₂, r₂, houtputs, h⟩ := of_run_bind h
  obtain ⟨doc, -, h⟩ := of_run_check_bind h
  obtain ⟨declared, hdeclared, hread⟩ := of_run_readInputs hinputs
  obtain ⟨slots, again, f₃, r₃, hslots, htypes, hagain⟩ := of_run_readOutputs houtputs
  cases h
  exact ⟨declared, inputs, f₁, r₁, slots, again, f₃, r₃, doc, result, hinputs, hdeclared, hread, hslots,
    htypes, hagain, rfl⟩

end Hinting

namespace Registering

variable {r r' : Registry}

theorem added_of_run_ok {modules : Modules} {make : NodeEntry → Except Fault (Option String)} {info : Value}
    (h : (addNode modules make info).run r = (.ok (), r')) :
    Added modules make info r (.ok (), r') := by
  rcases addNode_cases modules make info r with hadded | ⟨_, _, _, _, _, _, _, -, -, -, -, hfailed⟩
  · exact h ▸ hadded
  · rw [h] at hfailed
    cases hfailed

theorem made_of_run_ok {modules : Modules} {make : NodeEntry → Except Fault (Option String)} {info : Value}
    {name id : String} (hname : named info = .ok name) (hnew : r.resolve name = .inr id)
    (h : (addNode modules make info).run r = (.ok (), r')) :
    ∃ stub types findings className r₁,
      readFor modules info r name id = (.ok ((stub, types), findings), r₁) ∧
      r' = { r₁.setVar id (.node name className) with
        nodeStubs := r₁.nodeStubs ++ [stub]
        nodes := Table.put name (entryOf info types findings) r₁.nodes } := by
  cases added_of_run_ok h with
  | known hname' hresolve =>
    cases hname.symm.trans hname'
    cases hnew.symm.trans hresolve
  | made hname' hresolve hread _ =>
    cases hname.symm.trans hname'
    cases hnew.symm.trans hresolve
    exact ⟨_, _, _, _, _, hread, rfl⟩

end Registering

end Flowscript
