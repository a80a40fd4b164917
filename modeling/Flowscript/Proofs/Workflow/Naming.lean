import Flowscript.Proofs.Workflow.Links

/-!
# The names of outputs

An output takes over the variable of the only argument of its type, if no output before it does and
nothing else needs the variable; otherwise it gets a variable that was not in use. The graph records
it under the slot of the output, and otherwise stays as it is.
-/

namespace Flowscript

open List Option

namespace Value

theorem int_beq_int (m n : Int) : (int m == int n) = (m == n) := by
  simp [BEq.beq, same, sameLeaf, number?, sameNumber]

theorem find?_put_int {α : Type} {table : List (Value × α)}
    (h : ∀ key ∈ table.map Prod.fst, ∃ n, key = int n) (m n : Int) (a : α) :
    Table.find? (int n) (Table.put (int m) a table) =
      if m = n then some a else Table.find? (int n) table := by
  induction table with
  | nil => simp [Table.put, Table.find?, int_beq_int]
  | cons entry rest ih =>
    obtain ⟨k, b⟩ := entry
    obtain ⟨l, rfl⟩ : ∃ l, k = int l := h k (by simp)
    have ih := ih fun key hkey => h key (mem_cons_of_mem _ hkey)
    by_cases hlm : l = m
    · subst hlm
      by_cases hln : l = n
      · simp [Table.put, Table.find?, int_beq_int, hln]
      · simp [Table.put, Table.find?, int_beq_int, hln]
    · by_cases hln : l = n
      · subst hln
        simp [Table.put, Table.find?, int_beq_int, hlm, Ne.symm hlm]
      · simp [Table.put, Table.find?, int_beq_int, hlm, hln, ih]

end Value

namespace Workflow

variable {type : Value} {a : Argument}

/-! ## Records of outputs -/

theorem run_recordOutput {id : Value} {v : Vertex} {d : Draft} (hv : d.graph.vertex? id = some v)
    (hid : (v.id == id) = true) (slot : Int) (x : String) :
    ∃ d', (recordOutput id (.int slot) x).run d = (.ok (), d') ∧ d'.names = d.names ∧
      d.graph.Beside id d'.graph ∧ d'.graph.vertex? id =
        some { v with outputIds := some (Table.put (.int slot) x (v.outputIds.getD [])) } := by
  let opened : Vertex → Vertex := fun y => { y with outputIds := some (y.outputIds.getD []) }
  let written : Vertex → Vertex := fun y =>
    { y with outputIds := y.outputIds.map (Table.put (.int slot) x) }
  refine ⟨{ d with graph := (d.graph.modifyVertex id opened).modifyVertex id written }, rfl, rfl,
    (Graph.Beside.modifyVertex _ id (f := opened) fun _ => rfl).trans
      (Graph.Beside.modifyVertex _ id (f := written) fun _ => rfl), ?_⟩
  rw [Graph.vertex?_modifyVertex _ id id (f := written) fun _ => rfl,
    Graph.vertex?_modifyVertex _ id id (f := opened) fun _ => rfl, hv, map_some,
    map_some, if_pos hid]
  exact congrArg some (if_pos hid)

/-! ## Twins -/

theorem twinsOf_eq {output : Value} (htype : output.field "type" = .ok type) (arguments : List Argument) :
    twinsOf arguments output = .ok ((arguments.zipIdx.filter fun entry =>
      type == entry.1.type && entry.1.text != "_").map Prod.swap) := by
  unfold twinsOf
  have hstep : ∀ done entry rest found, arguments.zipIdx = done ++ entry :: rest →
      found = (done.filter fun entry => type == entry.1.type && entry.1.text != "_").map Prod.swap →
      ∃ found', (do
        if (← output.field "type") == entry.1.type && entry.1.text != "_" then
          .ok (found ++ [(entry.2, entry.1)])
        else .ok found : Except Fault (List (Nat × Argument))) = .ok found' ∧
        found' = ((done ++ [entry]).filter fun entry =>
          type == entry.1.type && entry.1.text != "_").map Prod.swap := by
    rintro done entry rest _ - rfl
    rw [htype, ok_bind]
    by_cases htwin : (type == entry.1.type && entry.1.text != "_") = true
    · have hswap : entry.swap = (entry.2, entry.1) := rfl
      exact ⟨_, if_pos htwin, by simp [filter_append, htwin, hswap]⟩
    · exact ⟨_, if_neg htwin, by simp [filter_append, htwin]⟩
  obtain ⟨found, hfound, rfl⟩ := foldlM_ok (fun done found => found = (done.filter fun entry =>
    type == entry.1.type && entry.1.text != "_").map Prod.swap) arguments.zipIdx hstep rfl
  exact hfound

def TwinAt (arguments : List Argument) (type : Value) (q : Nat) : Prop :=
  ∃ a, arguments[q]? = some a ∧ (type == a.type) = true ∧ a.text ≠ "_"

def OnlyTwin (arguments : List Argument) (type : Value) (q : Nat) : Prop :=
  TwinAt arguments type q ∧ ∀ r, TwinAt arguments type r → r = q

theorem OnlyTwin.unique {arguments : List Argument} {q r : Nat} (hq : OnlyTwin arguments type q)
    (hr : OnlyTwin arguments type r) : q = r :=
  hr.2 q hq.1

theorem twinsOf_cases {output : Value} (htype : output.field "type" = .ok type) (arguments : List Argument) :
    (∃ q a, twinsOf arguments output = .ok [(q, a)] ∧ arguments[q]? = some a ∧
      OnlyTwin arguments type q) ∨
    ∃ twins, twinsOf arguments output = .ok twins ∧ (∀ q a, twins ≠ [(q, a)]) ∧
      ∀ q, ¬ OnlyTwin arguments type q := by
  have heq := twinsOf_eq htype arguments
  generalize htwins : (arguments.zipIdx.filter fun entry =>
    type == entry.1.type && entry.1.text != "_").map Prod.swap = twins at heq
  have hmem (q : Nat) (a : Argument) : (q, a) ∈ twins ↔
      arguments[q]? = some a ∧ (type == a.type) = true ∧ a.text ≠ "_" := by
    rw [← htwins]
    simp [mem_zipIdx_iff_getElem?]
  have hnodup : (twins.map Prod.fst).Nodup := by
    have hsub := (filter_sublist (p := fun entry : Argument × Nat =>
      type == entry.1.type && entry.1.text != "_") (l := arguments.zipIdx)).map Prod.snd
    rw [zipIdx_map_snd] at hsub
    rw [← htwins, List.map_map]
    exact hsub.nodup nodup_range'
  match twins with
  | [] =>
    refine .inr ⟨[], heq, nofun, fun q hq => ?_⟩
    obtain ⟨a, ha⟩ := hq.1
    exact absurd ((hmem q a).mpr ha) not_mem_nil
  | [(q, a)] =>
    obtain ⟨hget, htwin⟩ := (hmem q a).mp mem_cons_self
    refine .inl ⟨q, a, heq, hget, ⟨a, hget, htwin⟩, fun r ⟨b, hb⟩ => ?_⟩
    have hr := (hmem r b).mpr hb
    simp only [mem_singleton, Prod.mk.injEq] at hr
    exact hr.1
  | (q, a) :: (r, b) :: rest =>
    refine .inr ⟨_, heq, nofun, fun s hs => ?_⟩
    have hq := hs.2 q ⟨a, (hmem q a).mp mem_cons_self⟩
    have hr := hs.2 r ⟨b, (hmem r b).mp (mem_cons_of_mem _ mem_cons_self)⟩
    simp [hq, hr] at hnodup

/-! ## Names -/

def IsWordy (x : String) : Prop := ∀ c ∈ x.toList, Identifier.isWord c = true

theorem isWordy_append {x y : String} (hx : IsWordy x) (hy : IsWordy y) : IsWordy (x ++ y) := by
  intro c hc
  rw [String.toList_append, mem_append] at hc
  exact hc.elim (hx c) (hy c)

theorem isWordy_intText (n : Nat) : IsWordy (Value.intText n) := by
  intro c hc
  have hdigit := Value.isDigit_of_mem_intText hc
  refine Identifier.isWord_of_isAsciiWord ?_
  simp only [Identifier.isAsciiWord, Text.isAsciiDigit, Bool.or_eq_true, Bool.and_eq_true,
    decide_eq_true_eq]
  simp only [Char.isDigit, Bool.and_eq_true, decide_eq_true_eq] at hdigit
  exact .inl (.inr hdigit)

theorem append_intText_ne (x : String) (n : Nat) : x ++ Value.intText n ≠ "_" := by
  intro h
  have hchars : x.toList ++ (Value.intText n).toList = ['_'] := by
    rw [← String.toList_append, h]
    rfl
  have hdigits : (Value.intText n).toList ≠ [] := by
    rw [Value.intText_natCast, String.toList_ofList]
    exact Nat.toDigits_ne_nil
  rcases append_eq_singleton_iff.mp hchars with ⟨-, hlast⟩ | ⟨-, hnil⟩
  · have hmem : '_' ∈ (Value.intText n).toList := hlast ▸ mem_singleton_self _
    exact absurd (Value.isDigit_of_mem_intText hmem) (by decide)
  · exact hdigits hnil

theorem freshName_word (names : List String) {name : String} (hname : IsWordy name)
    (hne : name ≠ "_") : IsWordy (freshName names name) ∧ freshName names name ≠ "_" := by
  unfold freshName
  split
  · obtain ⟨k, hk⟩ := numberedName_eq names name (names.length + 1) 2
    rw [hk]
    exact ⟨isWordy_append hname (isWordy_intText k), append_intText_ne name k⟩
  · exact ⟨hname, hne⟩

/-! ## Arguments that may give their variable away -/

@[simp]
theorem Argument.keep_keep (a : Argument) : a.keep.keep = a.keep := by
  cases a <;> rfl

@[simp]
theorem Argument.type_keep (a : Argument) : a.keep.type = a.type := by
  cases a <;> rfl

@[simp]
theorem Argument.text_keep (a : Argument) : a.keep.text = a.text := by
  cases a <;> rfl

theorem Argument.mayMove?_keep (a : Argument) : a.keep.mayMove? ≠ some true := by
  cases a <;> simp [keep, mayMove?]

theorem Argument.name?_of_mayMove? (h : a.mayMove? = none) : a.name? = none := by
  cases a <;> first | rfl | cases h

theorem Argument.exists_name?_of_mayMove? {b : Bool} (h : a.mayMove? = some b) :
    ∃ x, a.name? = some x := by
  cases a <;> first | exact ⟨_, rfl⟩ | cases h

/-- Arguments of an ordinary node: their variables are in use, and none is of any type. -/
structure Assignable (names : List String) (arguments : List Argument) : Prop where
  inUse : ∀ a ∈ arguments, ∀ x, a.name? = some x → x ∈ names ∧ x ≠ "_" ∧ IsWordy x
  noAny : ∀ a ∈ arguments, (a.type == .str "*") = false

def KeptFrom (arguments kept : List Argument) : Prop :=
  kept.map Argument.keep = arguments.map Argument.keep

namespace KeptFrom

variable {arguments kept : List Argument} {q : Nat} (h : KeptFrom arguments kept)

include h

theorem modify (j : Nat) : KeptFrom arguments (kept.modify j Argument.keep) := by
  unfold KeptFrom at h ⊢
  rw [← h]
  refine List.ext_getElem? fun k => ?_
  rw [List.getElem?_map, List.getElem?_map, List.getElem?_modify, Option.map_eq_map,
    Option.map_map]
  congr 1
  funext a
  by_cases hk : j = k <;> simp [hk]

theorem exists_mem {b : Argument} (hb : b ∈ kept) :
    ∃ a ∈ arguments, a.keep = b.keep :=
  mem_map.mp (h ▸ mem_map_of_mem hb)

theorem exists_getElem? {b : Argument} (hb : kept[q]? = some b) :
    ∃ a, arguments[q]? = some a ∧ a.keep = b.keep := by
  have hget := congrArg (·[q]?) h
  simp only [getElem?_map, hb, map_some] at hget
  exact map_eq_some_iff.mp hget.symm

theorem symm : KeptFrom kept arguments := Eq.symm h

theorem map_name? : kept.map Argument.name? = arguments.map Argument.name? := by
  have hnames := congrArg (List.map Argument.name?) h
  simpa [List.map_map, Function.comp_def] using hnames

theorem bind_name? {p : Nat} {a : Argument}
    (ha : arguments[p]? = some a) : kept[p]?.bind Argument.name? = a.name? := by
  have hname := congrArg (·[p]?) h.map_name?
  simp only [getElem?_map, ha, map_some] at hname
  obtain ⟨b, hb, hbname⟩ := map_eq_some_iff.mp hname
  rw [hb, bind_some, hbname]

theorem noAny (hany : ∀ a ∈ arguments, (a.type == .str "*") = false) :
    ∀ b ∈ kept, (b.type == .str "*") = false := by
  intro b hb
  obtain ⟨a, ha, hkeep⟩ := h.exists_mem hb
  rw [← b.type_keep, ← hkeep, a.type_keep]
  exact hany a ha

theorem twinAt {type : Value} (hq : TwinAt kept type q) :
    TwinAt arguments type q := by
  obtain ⟨b, hb, htype, htext⟩ := hq
  obtain ⟨a, ha, hkeep⟩ := h.exists_getElem? hb
  refine ⟨a, ha, ?_, ?_⟩
  · rw [← a.type_keep, hkeep, b.type_keep]
    exact htype
  · rw [← a.text_keep, hkeep, b.text_keep]
    exact htext

theorem onlyTwin_iff {type : Value} :
    OnlyTwin kept type q ↔ OnlyTwin arguments type q :=
  ⟨fun hq => ⟨h.twinAt hq.1, fun r hr => hq.2 r (h.symm.twinAt hr)⟩,
    fun hq => ⟨h.symm.twinAt hq.1, fun r hr => hq.2 r (h.twinAt hr)⟩⟩

end KeptFrom

/-! ## Outputs one by one -/

structure IsOutput (node : Value) (single : Bool) (s : Nat) (o : Value) : Prop where
  slot : slotOf o single s = .int s
  type : (typeOf o == .null) = false
  links : o.field? "links" = some .null ∨ ∃ links, o.field? "links" = some (.list links)
  name : linksOf o ≠ [] → ∀ name, suggestedName node o = .ok name → Identifier.variableId name ≠ "_"

theorem IsOutput.field_type {node o : Value} {single : Bool} {s : Nat}
    (h : IsOutput node single s o) : o.field "type" = .ok (typeOf o) := by
  have hnull := h.type
  unfold typeOf at hnull ⊢
  cases hfield : o.field? "type" with
  | none =>
    rw [hfield] at hnull
    cases hnull
  | some type => exact field_eq_ok_iff.mpr hfield

theorem isUsed_eq {o : Value}
    (h : o.field? "links" = some .null ∨ ∃ links, o.field? "links" = some (.list links)) :
    isUsed o = .ok (!(linksOf o).isEmpty) := by
  unfold isUsed linksOf itemsAt
  rcases h with hnull | ⟨links, hlinks⟩
  · rw [field_eq_ok_iff.mpr hnull, hnull]
    rfl
  · rw [field_eq_ok_iff.mpr hlinks, hlinks]
    cases links <;> rfl

theorem name?_of_twin (hnull : (type == .null) = false) (htype : (type == a.type) = true)
    (htext : a.text ≠ "_") : a.name? = some a.text := by
  cases a with
  | held x type mayMove => rfl
  | hole type => exact absurd rfl htext
  | widget v => exact absurd htype (by simp [Argument.type, hnull])
  | absent => exact absurd htype (by simp [Argument.type, hnull])

section Outputs

variable {node o : Value} {single : Bool} {arguments : List Argument} {t t' : Targets}
  {x : String} {before d d' : Draft}

theorem otherVariable_eq (hany : ∀ a ∈ arguments, (a.type == .str "*") = false) :
    otherVariable node o single arguments =
      check (suggestedName node o) >>= fun name => assignName (Identifier.variableId name) := by
  have hnone : (arguments.filter fun a => a.type == .str "*") = [] := by
    rw [filter_eq_nil_iff]
    intro a ha
    simp [hany a ha]
  unfold otherVariable
  rw [hnone]
  cases single <;> rfl

theorem of_run_otherVariable (hany : ∀ a ∈ arguments, (a.type == .str "*") = false)
    (h : (otherVariable node o single arguments).run d = (.ok x, d')) :
    d'.graph = d.graph ∧ d'.names = d.names ++ [x] ∧
      ∃ name, suggestedName node o = .ok name ∧
        x = freshName d.names (Identifier.variableId name) := by
  rw [otherVariable_eq hany] at h
  obtain ⟨name, hname, h⟩ := of_run_check_bind h
  cases h
  exact ⟨rfl, rfl, name, hname, rfl⟩

theorem of_run_chooseVariable {s : Nat} (ho : IsOutput node single s o)
    (hany : ∀ a ∈ t.arguments, (a.type == .str "*") = false)
    (h : (chooseVariable node o single t).run d = (.ok (x, t'), d')) :
    t'.names = t.names ∧ d'.graph = d.graph ∧
      ((∃ q a, t.arguments[q]? = some a ∧ OnlyTwin t.arguments (typeOf o) q ∧
          a.mayMove? = some true ∧ a.name? = some x ∧
          t'.arguments = t.arguments.modify q Argument.keep ∧ d'.names = d.names) ∨
        ((∀ q a, t.arguments[q]? = some a → OnlyTwin t.arguments (typeOf o) q →
            a.mayMove? ≠ some true) ∧
          (∃ name, suggestedName node o = .ok name ∧
            x = freshName d.names (Identifier.variableId name)) ∧
          t'.arguments = t.arguments ∧ d'.names = d.names ++ [x])) := by
  obtain ⟨found, hfound, hcases⟩ := chooseVariable_cases h
  rcases twinsOf_cases ho.field_type t.arguments with
    ⟨q, a, htwins, hq, honly⟩ | ⟨twins, htwins, hnot, honly⟩
  · obtain rfl := Except.ok.inj (htwins.symm.trans hfound)
    obtain ⟨_, _, ⟨⟩, hmove, rfl, rfl, rfl⟩ | ⟨hother, ⟨_, _, ⟨⟩, hmove, rfl⟩ | ⟨hnot, -⟩⟩ := hcases
    · obtain ⟨b, hb, htype, htext⟩ := honly.1
      obtain rfl : b = a := some.inj (hb.symm.trans hq)
      exact ⟨rfl, rfl, .inl ⟨q, b, hq, honly, hmove, name?_of_twin ho.type htype htext, rfl, rfl⟩⟩
    · obtain ⟨hgraph, hnames, hfresh⟩ := of_run_otherVariable hany hother
      refine ⟨rfl, hgraph, .inr ⟨fun r b hr hb hmove' => ?_, hfresh, rfl, hnames⟩⟩
      obtain rfl := honly.unique hb
      rw [← some.inj (hq.symm.trans hr), hmove] at hmove'
      cases hmove'
    · exact absurd rfl (hnot q a)
  · obtain rfl := Except.ok.inj (htwins.symm.trans hfound)
    obtain ⟨q, a, htwin, -⟩ | ⟨hother, ⟨q, a, htwin, -⟩ | ⟨-, rfl⟩⟩ := hcases
    · exact absurd htwin (hnot q a)
    · exact absurd htwin (hnot q a)
    · obtain ⟨hgraph, hnames, hfresh⟩ := of_run_otherVariable hany hother
      exact ⟨rfl, hgraph, .inr ⟨fun q _ _ hq => absurd hq (honly q), hfresh, rfl, hnames⟩⟩

end Outputs

/-! ## All outputs -/

/-- The used output at `s` has the argument at `q` for its only twin. -/
def Wants (outputs : List Value) (arguments : List Argument) (s q : Nat) : Prop :=
  ∃ o, outputs[s]? = some o ∧ linksOf o ≠ [] ∧ OnlyTwin arguments (typeOf o) q

def Movable (arguments : List Argument) (q : Nat) : Prop :=
  ∃ a, arguments[q]? = some a ∧ a.mayMove? = some true

/-- The output at `s` takes over the variable of the argument at `q`: it is the first that wants it,
and the argument may give it away. -/
structure Takes (outputs : List Value) (arguments : List Argument) (s q : Nat) : Prop where
  wants : Wants outputs arguments s q
  movable : Movable arguments q
  first : ∀ r < s, ¬ Wants outputs arguments r q

/-- The first outputs of a node have got their names: unused ones `_`, and each used one a variable
that it takes over, or one that was not in use before. -/
structure Named (id : Value) (outputs : List Value) (arguments : List Argument) (before : Draft)
    (v : Vertex) (t : Targets) (d : Draft) : Prop where
  kept : KeptFrom arguments t.arguments
  movable : ∀ q, Movable t.arguments q ↔
    Movable arguments q ∧ ∀ s < t.names.length, ¬ Wants outputs arguments s q
  grows : ∀ x ∈ before.names, x ∈ d.names
  beside : before.graph.Beside id d.graph
  recorded : ∃ ids, d.graph.vertex? id = some { v with outputIds := ids } ∧
    (∀ key ∈ (ids.getD []).map Prod.fst, ∃ k, key = .int k) ∧
    ∀ (s : Nat) x, t.names[s]? = some x → x ≠ "_" → Table.find? (.int s) (ids.getD []) = some x
  blank : ∀ (s : Nat) o x, outputs[s]? = some o → t.names[s]? = some x → (x = "_" ↔ linksOf o = [])
  named : ∀ x ∈ t.names, x ≠ "_" → t.used = true ∧ x ∈ d.names ∧ IsWordy x
  origin : ∀ (s : Nat) x, t.names[s]? = some x → x ≠ "_" →
    (∃ q a, Takes outputs arguments s q ∧ arguments[q]? = some a ∧ a.name? = some x) ∨
      x ∉ before.names ∧ ∀ r < s, t.names[r]? ≠ some x
  gives : ∀ s q, Takes outputs arguments s q → s < t.names.length →
    ∃ a x, arguments[q]? = some a ∧ a.name? = some x ∧ t.names[s]? = some x

theorem getElem?_append_singleton {α : Type} {items : List α} {a b : α} {s : Nat}
    (h : (items ++ [a])[s]? = some b) : items[s]? = some b ∨ s = items.length ∧ b = a := by
  rw [getElem?_append] at h
  split at h
  · exact .inl h
  · rw [getElem?_singleton] at h
    split at h
    · exact .inr ⟨by omega, (some.inj h).symm⟩
    · cases h

section Outputs

variable {id node o : Value} {outputs : List Value} {arguments : List Argument} {before d d' : Draft}
  {v : Vertex} {t t' : Targets} {x : String} {s : Nat}

theorem Wants.of_length {q : Nat} (h : Wants outputs arguments s q) (ho : outputs[s]? = some o) :
    linksOf o ≠ [] ∧ OnlyTwin arguments (typeOf o) q := by
  obtain ⟨o', ho', hlinks, honly⟩ := h
  obtain rfl : o' = o := some.inj (ho'.symm.trans ho)
  exact ⟨hlinks, honly⟩

theorem Named.start (hv : d.graph.vertex? id = some v) (hids : v.outputIds = none)
    (hbeside : before.graph.Beside id d.graph) (hgrows : ∀ x ∈ before.names, x ∈ d.names) :
    Named id outputs arguments before v ⟨arguments, [], [], false⟩ d := by
  refine ⟨rfl, fun q => by simp, hgrows, hbeside, ⟨none, ?_, by simp, by simp⟩, by simp, by simp,
    by simp, by simp⟩
  rw [hv, ← hids]

theorem Named.skip (h : Named id outputs arguments before v t d)
    (ho : outputs[t.names.length]? = some o) (hlinks : linksOf o = []) :
    Named id outputs arguments before v { t with names := t.names ++ ["_"] } d where
  kept := h.kept
  movable q := by
    rw [h.movable q, length_append, length_singleton]
    refine and_congr_right fun _ => ⟨fun hall s hs => ?_, fun hall s hs => hall s (by omega)⟩
    rcases Nat.lt_succ_iff_lt_or_eq.mp hs with hlt | rfl
    · exact hall s hlt
    · exact fun hwants => (hwants.of_length ho).1 hlinks
  grows := h.grows
  beside := h.beside
  recorded := by
    obtain ⟨ids, hv, hkeys, hfind⟩ := h.recorded
    refine ⟨ids, hv, hkeys, fun s x hs hne => ?_⟩
    rcases getElem?_append_singleton hs with hold | ⟨-, rfl⟩
    · exact hfind s x hold hne
    · exact absurd rfl hne
  blank s o' x ho' hs := by
    rcases getElem?_append_singleton hs with hold | ⟨rfl, rfl⟩
    · exact h.blank s o' x ho' hold
    · rw [ho] at ho'
      simp [← some.inj ho', hlinks]
  named x hx hne := by
    rcases mem_append.mp hx with hold | hnew
    · exact h.named x hold hne
    · exact absurd (mem_singleton.mp hnew) hne
  origin s x hs hne := by
    rcases getElem?_append_singleton hs with hold | ⟨-, rfl⟩
    · refine (h.origin s x hold hne).imp_right fun ⟨hnew, hfirst⟩ => ⟨hnew, fun r hr => ?_⟩
      have hlt := (List.getElem?_eq_some_iff.mp hold).1
      rw [getElem?_append_left (by omega)]
      exact hfirst r hr
    · exact absurd rfl hne
  gives s q htakes hs := by
    rw [length_append, length_singleton] at hs
    rcases Nat.lt_succ_iff_lt_or_eq.mp hs with hlt | rfl
    · obtain ⟨a, x, ha, hx, hname⟩ := h.gives s q htakes hlt
      exact ⟨a, x, ha, hx, by rwa [getElem?_append_left hlt]⟩
    · exact absurd hlinks (htakes.wants.of_length ho).1

theorem Named.record (h : Named id outputs arguments before v t d) (hid : (v.id == id) = true)
    (ho : outputs[t.names.length]? = some o) (hlinks : linksOf o ≠ []) {d₁ : Draft}
    (hne : x ≠ "_") (hwordy : IsWordy x) (hx : x ∈ d₁.names) (hgraph : d₁.graph = d.graph)
    (hgrows : ∀ y ∈ d.names, y ∈ d₁.names) (hnames : t'.names = t.names)
    (hkept : KeptFrom arguments t'.arguments)
    (hmovable : ∀ q, Movable t'.arguments q ↔
      Movable arguments q ∧ ∀ s < t.names.length + 1, ¬ Wants outputs arguments s q)
    (horigin : (∃ q a, Takes outputs arguments t.names.length q ∧ arguments[q]? = some a ∧
      a.name? = some x) ∨ x ∉ d.names)
    (hgives : ∀ q, Takes outputs arguments t.names.length q →
      ∃ a, arguments[q]? = some a ∧ a.name? = some x)
    (hrun : (recordOutput id (.int t.names.length) x).run d₁ = (.ok (), d')) :
    Named id outputs arguments before v { t' with names := t'.names ++ [x], used := true } d' := by
  obtain ⟨ids, hv, hkeys, hfind⟩ := h.recorded
  have hv₁ : d₁.graph.vertex? id = some { v with outputIds := ids } := hgraph ▸ hv
  obtain ⟨d'', hrun', hnames', hbeside, hv'⟩ := run_recordOutput hv₁ hid t.names.length x
  obtain rfl : d' = d'' := congrArg Prod.snd (hrun.symm.trans hrun')
  have hlast (s : Nat) (y : String) (hs : (t.names ++ [x])[s]? = some y) :
      t.names[s]? = some y ∧ s < t.names.length ∨ s = t.names.length ∧ y = x :=
    (getElem?_append_singleton hs).imp_left fun hs => ⟨hs, (List.getElem?_eq_some_iff.mp hs).1⟩
  refine ⟨hkept, ?_, fun y hy => ?_, h.beside.trans (hgraph ▸ hbeside), ⟨_, hv', ?_, ?_⟩, ?_, ?_, ?_, ?_⟩
  · simpa [hnames] using hmovable
  · exact hnames' ▸ hgrows y (h.grows y hy)
  · intro key hkey
    rcases Table.map_fst_put (.int t.names.length) x (ids.getD []) with hfst | ⟨-, hfst⟩
    · exact hkeys key (hfst ▸ hkey)
    · rcases mem_append.mp (hfst ▸ hkey) with hold | hnew
      · exact hkeys key hold
      · exact ⟨_, mem_singleton.mp hnew⟩
  · intro s y hs hyne
    rw [getD_some, Value.find?_put_int hkeys]
    rcases hlast s y (hnames ▸ hs) with ⟨hs, hlt⟩ | ⟨rfl, rfl⟩
    · rw [if_neg (by omega)]
      exact hfind s y hs hyne
    · rw [if_pos rfl]
  · intro s o' y ho' hs
    rcases hlast s y (hnames ▸ hs) with ⟨hs, -⟩ | ⟨rfl, rfl⟩
    · exact h.blank s o' y ho' hs
    · rw [ho] at ho'
      simp [← some.inj ho', hlinks, hne]
  · intro y hy hyne
    rcases mem_append.mp hy with hyold | hynew
    · obtain ⟨-, hmem, hword⟩ := h.named y (hnames ▸ hyold) hyne
      exact ⟨rfl, hnames' ▸ hgrows y hmem, hword⟩
    · rw [mem_singleton.mp hynew]
      exact ⟨rfl, hnames' ▸ hx, hwordy⟩
  · intro s y hs hyne
    rcases hlast s y (hnames ▸ hs) with ⟨hs, hlt⟩ | ⟨rfl, rfl⟩
    · refine (h.origin s y hs hyne).imp_right fun ⟨hnew, hfirst⟩ => ⟨hnew, fun r hr => ?_⟩
      rw [hnames, getElem?_append_left (by omega)]
      exact hfirst r hr
    · refine horigin.imp_right fun hnew => ⟨fun hin => hnew (h.grows y hin), fun r hr => ?_⟩
      rw [hnames, getElem?_append_left hr]
      exact fun hr => hnew (h.named y (mem_of_getElem? hr) hne).2.1
  · intro s q htakes hs
    rw [hnames, length_append, length_singleton] at hs
    rw [hnames]
    rcases Nat.lt_succ_iff_lt_or_eq.mp hs with hlt | rfl
    · obtain ⟨a, y, ha, hy, hname⟩ := h.gives s q htakes hlt
      exact ⟨a, y, ha, hy, by rwa [getElem?_append_left hlt]⟩
    · obtain ⟨a, ha, hname⟩ := hgives q htakes
      exact ⟨a, x, ha, hname, by simp⟩

theorem of_run_assignOutput (harguments : Assignable before.names arguments)
    (hid : (v.id == id) = true) (ho : outputs[t.names.length]? = some o) {single : Bool}
    (houtput : IsOutput node single t.names.length o) (h : Named id outputs arguments before v t d)
    (hrun : (assignOutput id node single t o t.names.length).run d = (.ok t', d')) :
    t'.names.length = t.names.length + 1 ∧ Named id outputs arguments before v t' d' := by
  have hused := isUsed_eq houtput.links
  obtain ⟨hblank, rfl, rfl⟩ | ⟨hlinks, x, t₁, d₁, hchoose, hrecord, rfl⟩ := assignOutput_cases hrun
  · exact ⟨by simp, h.skip ho (by simpa [hused] using hblank)⟩
  replace hlinks : linksOf o ≠ [] := by simpa [hused] using hlinks
  rw [houtput.slot] at hrecord
  obtain ⟨hnames, hgraph, hx⟩ := of_run_chooseVariable houtput (h.kept.noAny harguments.noAny) hchoose
  have hwants (q : Nat) : OnlyTwin t.arguments (typeOf o) q ↔
      Wants outputs arguments t.names.length q := by
    rw [h.kept.onlyTwin_iff]
    exact ⟨fun honly => ⟨o, ho, hlinks, honly⟩, fun hwants => (hwants.of_length ho).2⟩
  have htakes (q : Nat) : Takes outputs arguments t.names.length q ↔
      Movable t.arguments q ∧ OnlyTwin t.arguments (typeOf o) q := by
    rw [hwants, h.movable]
    exact ⟨fun ⟨hw, hm, hfirst⟩ => ⟨⟨hm, hfirst⟩, hw⟩, fun ⟨⟨hm, hfirst⟩, hw⟩ => ⟨hw, hm, hfirst⟩⟩
  have hinUse (q : Nat) {a : Argument} (ha : t.arguments[q]? = some a) (y : String)
      (hy : a.name? = some y) : y ∈ before.names ∧ y ≠ "_" ∧ IsWordy y := by
    obtain ⟨b, hb, hkeep⟩ := h.kept.exists_getElem? ha
    refine harguments.inUse b (mem_of_getElem? hb) y ?_
    rw [← b.name?_keep, hkeep, a.name?_keep, hy]
  refine ⟨by simp [hnames], ?_⟩
  rcases hx with ⟨q, a, hq, honly, hmove, hname, hargs, hd₁⟩ | ⟨hnone, ⟨name, hname, rfl⟩, hargs, hd₁⟩
  · -- the variable of the only twin
    obtain ⟨hin, hne, hwordy⟩ := hinUse q hq x hname
    have hgets (r : Nat) (hr : Takes outputs arguments t.names.length r) :
        ∃ b, arguments[r]? = some b ∧ b.name? = some x := by
      obtain rfl := ((htakes r).mp hr).2.unique honly
      obtain ⟨b, hb, hkeep⟩ := h.kept.exists_getElem? hq
      exact ⟨b, hb, by rw [← b.name?_keep, hkeep, a.name?_keep, hname]⟩
    have htaken : Takes outputs arguments t.names.length q := (htakes q).mpr ⟨⟨a, hq, hmove⟩, honly⟩
    obtain ⟨b, hb, hbx⟩ := hgets q htaken
    refine h.record hid ho hlinks hne hwordy (hd₁ ▸ h.grows x hin) hgraph (fun y hy => hd₁ ▸ hy)
      hnames (hargs ▸ h.kept.modify q) (fun r => ?_) (.inl ⟨q, b, htaken, hb, hbx⟩) hgets hrecord
    -- only the argument that gave its variable away has come to keep it
    have hmodify : Movable t₁.arguments r ↔ Movable t.arguments r ∧ q ≠ r := by
      unfold Movable
      rw [hargs, getElem?_modify]
      by_cases hqr : q = r
      · subst hqr
        simp [hq, a.mayMove?_keep]
      · simp [hqr]
    rw [hmodify, h.movable, and_assoc]
    refine and_congr_right fun _ => ⟨fun ⟨hall, hqr⟩ s hs => ?_, fun hall => ⟨fun s hs => ?_, ?_⟩⟩
    · rcases Nat.lt_succ_iff_lt_or_eq.mp hs with hlt | rfl
      · exact hall s hlt
      · exact fun hw => hqr (honly.unique ((hwants r).mpr hw))
    · exact hall s (by omega)
    · rintro rfl
      exact hall _ (by omega) htaken.wants
  · -- a fresh variable
    obtain ⟨hwordy, hne⟩ := freshName_word d.names
      (fun c hc => Identifier.isWord_of_mem_variableId hc) (houtput.name hlinks name hname)
    have hnot (q : Nat) : ¬ Takes outputs arguments t.names.length q := by
      intro hq
      obtain ⟨⟨a, ha, hmove⟩, honly⟩ := (htakes q).mp hq
      exact hnone q a ha honly hmove
    refine h.record hid ho hlinks hne hwordy (hd₁ ▸ by simp) hgraph
      (fun y hy => hd₁ ▸ mem_append_left _ hy) hnames (hargs ▸ h.kept) (fun q => ?_)
      (.inr (freshName_not_mem d.names _)) (fun q hq => absurd hq (hnot q)) hrecord
    rw [hargs, h.movable]
    refine and_congr_right fun hmove => ⟨fun hall s hs => ?_, fun hall s hs => hall s (by omega)⟩
    rcases Nat.lt_succ_iff_lt_or_eq.mp hs with hlt | rfl
    · exact hall s hlt
    · exact fun hw => hnot q ⟨hw, hmove, hall⟩

theorem run_chooseVariable {single : Bool} (ho : IsOutput node single s o)
    (hname : ∃ name, suggestedName node o = .ok name) (t : Targets) (d : Draft) :
    ∃ result d', (chooseVariable node o single t).run d = (.ok result, d') := by
  have hother : ∃ y d', (otherVariable node o single t.arguments).run d = (.ok y, d') := by
    obtain ⟨name, hname⟩ := hname
    unfold otherVariable
    rw [hname]
    split
    · exact ⟨_, _, rfl⟩
    · exact ⟨_, _, rfl⟩
  obtain ⟨y, d', hother⟩ := hother
  unfold chooseVariable
  rcases twinsOf_cases ho.field_type t.arguments with
    ⟨q, a, htwins, hq, honly⟩ | ⟨twins, htwins, hnot, -⟩
  · rw [htwins, run_bind_ok (run_check _ d)]
    dsimp only
    split
    next hmove =>
      obtain ⟨b, hb, htype, htext⟩ := honly.1
      obtain rfl : b = a := some.inj (hb.symm.trans hq)
      have hvar := name?_of_twin ho.type htype htext
      rw [Argument.name?_of_mayMove? hmove] at hvar
      cases hvar
    · exact ⟨_, _, rfl⟩
    · rw [run_bind_ok hother]
      exact ⟨_, _, rfl⟩
  · rw [htwins, run_bind_ok (run_check _ d)]
    split
    next q a => exact absurd rfl (hnot q a)
    · rw [run_bind_ok hother]
      exact ⟨_, _, rfl⟩

theorem getElem?_of_zipIdx {α : Type} {items : List α} {done rest : List (α × Nat)}
    {entry : α × Nat} (h : items.zipIdx = done ++ entry :: rest) :
    items[done.length]? = some entry.1 ∧ entry.2 = done.length := by
  have hget : items.zipIdx[done.length]? = some entry := by simp [h]
  rw [getElem?_zipIdx, map_eq_some_iff] at hget
  obtain ⟨a, ha, rfl⟩ := hget
  exact ⟨ha, by simp⟩

def Vertex.withOutputs (outputs : List Value) (v : Vertex) : Vertex :=
  { v with node := v.node.map (setField "outputs" (.list outputs)) }

variable (hnode : node.field? "outputs" = some (.list outputs))
  (hsorted : sortOn (fun o => .ok (placeOfOutput o)) outputs = .ok outputs)
include hnode hsorted

theorem of_run_assignOutputs_sorted
    (hrun : (assignOutputs id node arguments).run d = (.ok t, d')) :
    (outputs.zipIdx.foldlM (fun t entry => assignOutput id node (outputs.length == 1) t entry.1 entry.2)
      ⟨arguments, [], [], false⟩).run { d with graph := d.graph.modifyVertex id (Vertex.withOutputs outputs) } =
        (.ok t, d') := by
  obtain ⟨hnone, -⟩ | ⟨items, sorted, hitems, hsort, hrun⟩ := assignOutputs_cases hrun
  · cases hnone.symm.trans hnode
  · cases hitems.symm.trans hnode
    cases hsort.symm.trans hsorted
    exact hrun

variable (houtputs : ∀ (s : Nat) o, outputs[s]? = some o → IsOutput node (outputs.length == 1) s o)
include houtputs

theorem of_run_assignOutputs (harguments : Assignable d.names arguments) (hv : d.graph.vertex? id = some v)
    (hid : (v.id == id) = true) (hids : v.outputIds = none)
    (hrun : (assignOutputs id node arguments).run d = (.ok t, d')) :
    t.names.length = outputs.length ∧
      Named id outputs arguments d (v.withOutputs outputs) t d' := by
  replace hrun := of_run_assignOutputs_sorted hnode hsorted hrun
  have hid' : ((v.withOutputs outputs).id == id) = true := hid
  have hv' : (d.graph.modifyVertex id (Vertex.withOutputs outputs)).vertex? id =
      some (v.withOutputs outputs) := by
    rw [Graph.vertex?_modifyVertex d.graph id id (f := Vertex.withOutputs outputs) fun _ => rfl, hv,
      map_some, if_pos hid]
  have hstart : Named id outputs arguments d (v.withOutputs outputs) ⟨arguments, [], [], false⟩
      { d with graph := d.graph.modifyVertex id (Vertex.withOutputs outputs) } :=
    .start hv' hids (.modifyVertex _ _ fun _ => rfl) fun x hx => hx
  have hfold := of_run_foldlM (fun (done : List (Value × Nat)) t d' =>
    t.names.length = done.length ∧ Named id outputs arguments d (v.withOutputs outputs) t d')
    (fun done entry rest t d₁ t' d₂ hsplit hdone hstep => by
      obtain ⟨hlength, hnamed⟩ := hdone
      obtain ⟨ho, hpos⟩ := getElem?_of_zipIdx hsplit
      rw [hpos, ← hlength] at hstep
      rw [← hlength] at ho
      obtain ⟨hlength', hnamed'⟩ := of_run_assignOutput harguments hid' ho (houtputs _ _ ho) hnamed hstep
      exact ⟨by simp [hlength', hlength], hnamed'⟩) ⟨rfl, hstart⟩ hrun
  simpa using hfold

/-! ## Outputs that can be named -/

theorem run_assignOutputs (hnames : ∀ o ∈ outputs, ∃ name, suggestedName node o = .ok name) (d : Draft) :
    ∃ t d', (assignOutputs id node arguments).run d = (.ok t, d') := by
  have hstep : ∀ entry ∈ outputs.zipIdx, ∀ t d₁, ∃ t' d₂,
      (assignOutput id node (outputs.length == 1) t entry.1 entry.2).run d₁ = (.ok t', d₂) := by
    intro entry hentry t d₁
    have ho := mem_zipIdx_iff_getElem?.mp hentry
    have houtput := houtputs _ _ ho
    unfold assignOutput
    rw [isUsed_eq houtput.links, run_bind_ok (run_check _ d₁), houtput.slot]
    split
    · obtain ⟨⟨x, t₁⟩, d₂, hchoose⟩ := run_chooseVariable houtput
        (hnames _ (mem_of_getElem? ho)) t d₁
      rw [run_bind_ok hchoose]
      exact ⟨_, _, rfl⟩
    · exact ⟨_, _, rfl⟩
  unfold assignOutputs
  simp only [hnode, itemsOf, ok_bind, hsorted]
  exact run_foldlM_ok hstep _ _

end Outputs

end Workflow

end Flowscript
