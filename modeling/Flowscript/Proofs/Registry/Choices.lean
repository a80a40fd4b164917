import Flowscript.Proofs.Members
import Flowscript.Proofs.Registry.Reading

/-!
# Values of choices

An input that is a choice of texts has an enumeration attached to its node. The texts are keyed by
their names without extensions, so that of two with one name only one is kept, and a choice of the
texts that the embeddings have takes the enumeration of these, whose values carry a mark.
-/

namespace Flowscript

open List Option

namespace Enumeration

variable {members members' : List EnumMember} {named items : List (String × Value)} {e : Enumeration}

def values (e : Enumeration) : List Value :=
  (e.members.filter fun m => m.name == m.canonical).map EnumMember.value

end Enumeration

variable {vs : List Value} {strs : List String} {items : List (String × Value)} {e : Enumeration}
  {sid margin stub : String}

namespace Value

end Value

def MadeOf (sid : String) (vs : List Value) (e : Enumeration) : Prop :=
  if sid = Registering.embeddingsId then ∃ (texts : List String) (stub : String),
    vs.map Value.text? = texts.map some ∧ Enumeration.ofTexts sid "" (Value.merge [] (texts.map fun s =>
      (s, .str (Registering.embeddingMark ++ s)))) = .ok (stub, e)
  else ∃ items stub, Hinting.keyByName vs = .ok items ∧
    Enumeration.ofTexts sid "" items = .ok (stub, e)

/-- What is shared is bound to an enumeration of the values that it is found by. -/
structure Faithful (vars : List (String × TypeRef)) (shared : List (String × Value)) : Prop where
  nodup : (shared.map Prod.fst).Nodup
  made : ∀ sid values, Table.find? sid shared = some values → ∃ e vs,
    Table.find? sid vars = some (.enumeration e) ∧ values.iterate = .ok vs ∧ MadeOf sid vs e

namespace Faithful

variable {vars : List (String × TypeRef)} {shared : List (String × Value)}

theorem put (h : Faithful vars shared) {id : String} (t : TypeRef)
    (hid : ∀ e, Table.find? id vars ≠ some (.enumeration e)) : Faithful (Table.put id t vars) shared := by
  refine ⟨h.nodup, fun sid values hfind => ?_⟩
  obtain ⟨e, vs, he, hmade⟩ := h.made sid values hfind
  have hne : id ≠ sid := fun heq => hid e (heq ▸ he)
  exact ⟨e, vs, by rw [Table.find?_put_of_ne hne, he], hmade⟩

theorem share (h : Faithful vars shared) {values : Value} (hvs : values.iterate = .ok vs)
    (hmade : MadeOf sid vs e) :
    Faithful (Table.put sid (.enumeration e) vars) (Table.put sid values shared) := by
  refine ⟨Value.put_eq_tablePut sid values shared ▸ Value.nodup_keys_put _ _ h.nodup,
    fun other old hfind => ?_⟩
  by_cases hsid : sid = other
  · subst hsid
    rw [Table.find?_put_self] at hfind
    cases hfind
    exact ⟨e, vs, Table.find?_put_self _ _ _, hvs, hmade⟩
  · rw [Table.find?_put_of_ne hsid] at hfind ⊢
    exact h.made other old hfind

theorem of_step {Named : String → Prop} {r r' : Registry} (h : Faithful r.vars r.sharedValues)
    (hstep : r.Step Named r') : Faithful r'.vars r'.sharedValues := by
  have hclaim {raw id : String} (hid : r.resolve raw = .inr id) (t : TypeRef) :
      Faithful (Table.put id t r.vars) r.sharedValues := by
    obtain ⟨-, -, -, hfree⟩ := Registry.of_resolve_inr hid
    exact h.put t fun e he => by cases hfree.symm.trans he
  cases hstep with
  | read hread =>
    cases hread with
    | log _ => exact h
    | @declare raw id hid =>
      refine (hclaim hid _).put _ fun e he => ?_
      rw [Table.find?_put_self] at he
      cases he
    | @share id stub values items e hid hitems he =>
      obtain ⟨vs, hvs, hkeyed⟩ := ok_of_bind hitems
      refine h.share hvs ?_
      rw [MadeOf, if_neg (fun heq => absurd (heq ▸ hid) (by decide +kernel))]
      exact ⟨items, stub, hkeyed, he⟩
  | @claim raw id hid => exact hclaim hid _
  | embed hembedded =>
    cases hembedded with
    | noted _ => exact h
    | @listed values items texts stub e hitems htexts he =>
      refine h.share hitems ?_
      rw [MadeOf, if_pos rfl]
      exact ⟨texts, stub, htexts, he⟩
  | @node raw id className _ _ hbinds _ =>
    obtain ⟨t, ht, hraw⟩ := hbinds
    refine h.put _ fun e he => ?_
    cases ht.symm.trans he
    cases hraw
  | stub _ => exact h

theorem of_reads {r r' : Registry} (h : Faithful r.vars r.sharedValues) (hreads : r.Reads r') :
    Faithful r'.vars r'.sharedValues := by
  induction hreads with
  | refl => exact h
  | tail _ hread ih => exact ih.of_step (.read hread : Registry.Step (fun _ => True) _ _)

end Faithful

namespace Hinting

variable {scope : Scope} {f f' : Findings} {r r' : Registry} {name id text key : String} {t : TypeRef}
  {isOutput : Bool} {type suggested : Value}

def IsChoice (type : Value) : Prop :=
  (∃ items, type = .list items ∨ type = .tuple items) ∧ Choice.isYesNo type = .ok false

theorem Typed.find?_attached (h : Typed scope isOutput name id type f r t text suggested f' r')
    (hkey : IsChoice type → id ≠ key) : Table.find? key f'.attached = Table.find? key f.attached := by
  cases h with
  | choice hitems hno _ => exact Table.find?_put_of_ne (hkey ⟨⟨_, hitems⟩, hno⟩) _ _
  | _ => rfl

theorem InputsRead.find?_attached {xs : List DeclaredInput} {inputs inputs' : Inputs}
    (h : InputsRead scope xs inputs f r inputs' f' r')
    (hkey : ∀ x ∈ xs, IsChoice x.type → Identifier.raw x.name ≠ key) :
    Table.find? key f'.attached = Table.find? key f.attached := by
  induction h with
  | nil _ _ _ => rfl
  | cons hfirst _ ih =>
    obtain ⟨hx, hrest⟩ := forall_mem_cons.mp hkey
    cases hfirst with
    | mk htyped => exact (ih hrest).trans (htyped.find?_attached hx)

theorem OutputsRead.find?_attached {slots : List (String × Value)} {types : List TypeRef}
    (h : OutputsRead scope slots types f r f' r')
    (hkey : ∀ slot ∈ slots, IsChoice slot.2 → Identifier.raw slot.1 ≠ key) :
    Table.find? key f'.attached = Table.find? key f.attached := by
  induction h with
  | nil _ _ => rfl
  | cons htyped _ ih =>
    obtain ⟨hslot, hrest⟩ := forall_mem_cons.mp hkey
    exact (ih hrest).trans (htyped.find?_attached hslot)

end Hinting

namespace Registry

theorem Reads.maxEnumValues {r r' : Registry} (h : r.Reads r') : r'.maxEnumValues = r.maxEnumValues := by
  induction h with
  | refl => rfl
  | tail _ hread ih =>
    rw [← ih]
    cases hread <;> rfl

end Registry

end Flowscript
