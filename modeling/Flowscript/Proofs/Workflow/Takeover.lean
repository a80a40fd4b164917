import Flowscript.Proofs.Workflow.Closed
import Flowscript.Proofs.Workflow.Effects
import Flowscript.Proofs.Workflow.Sheet

/-!
# Statements of sheets

The statement of an ordinary node reads, for each link, the variable that an earlier statement has for
the root of the link: nodes that only pass on a value hand its variable on, and their statements are
dropped. A used output takes over the variable of a link if that is the only one of its type, and no
other link leaves the output where it starts; otherwise the variable is new.
-/

namespace Flowscript.Workflow

open List Option

/-- The argument at a position comes from a link and has the type of an output. -/
def IsTwin (nodesInfo node o : Value) (p : Nat) : Prop :=
  ∃ input link, ArgumentAt nodesInfo node p input link ∧ (typeOf o == typeOf input) = true

def IsOnlyTwin (nodesInfo node o : Value) (p : Nat) : Prop :=
  IsTwin nodesInfo node o p ∧ ∀ q, IsTwin nodesInfo node o q → q = p

namespace Sheet

variable {sheet : Sheet}

def Sole (sheet : Sheet) (link : Value) : Prop :=
  ∃ n s o, sheet.From link n s ∧ (outputsOf n.2)[s]? = some o ∧ (linksOf o).length = 1

/-- The output at `s` takes over the variable of the argument at `p`: it is the first used output that
has this argument for its only twin, and the link of the argument is the only one at its start. -/
structure TakesOver (sheet : Sheet) (nodesInfo node : Value) (s p : Nat) : Prop where
  wants : ∃ o, (outputsOf node)[s]? = some o ∧ linksOf o ≠ [] ∧ IsOnlyTwin nodesInfo node o p
  sole : ∃ input link, ArgumentAt nodesInfo node p input link ∧ sheet.Sole link
  first : ∀ r < s, ∀ o, (outputsOf node)[r]? = some o → linksOf o ≠ [] →
    ¬ IsOnlyTwin nodesInfo node o p

def Bears (sheet : Sheet) (cs : List Contribution) (n : Value × Value) (s : Nat) (x : String) :
    Prop :=
  ∃ u t, sheet.RootOf n s u t ∧ ∃ c ∈ cs, c.node = u.1 ∧ c.targets.names[t]? = some x

def Carries (sheet : Sheet) (cs : List Contribution) (link : Value) (x : String) : Prop :=
  ∃ n s, sheet.From link n s ∧ sheet.Bears cs n s x

theorem Bears.mono {cs cs' : List Contribution} {n : Value × Value} {s : Nat} {x : String}
    (h : sheet.Bears cs n s x) (hcs : ∀ c ∈ cs, c ∈ cs') : sheet.Bears cs' n s x := by
  obtain ⟨u, t, hroot, c, hc, hrest⟩ := h
  exact ⟨u, t, hroot, c, hcs c hc, hrest⟩

/-- The statements of some nodes are written: the other nodes are as they were, and every used output
has the variable of its root. -/
structure Written (sheet : Sheet) (cs : List Contribution) (d : Draft) : Prop where
  ends : ∀ e ∈ sheet.edges, d.graph.endOf e.key = .ok e
  pending : ∀ n ∈ sheet.nodes, n.1 ∉ cs.map Contribution.node →
    d.graph.vertex? n.1 = some ⟨n.1, some n.2, none⟩
  names : ∀ c ∈ cs, ∀ x ∈ c.targets.names, x ≠ "_" → x ∈ d.names
  holds : ∀ n ∈ sheet.nodes, n.1 ∈ cs.map Contribution.node → ∀ (s : Nat) o,
    (outputsOf n.2)[s]? = some o → linksOf o ≠ [] →
    ∃ x, d.Holding n.1 (outputsOf n.2) s x ∧ sheet.Bears cs n s x

/-- The turn of a node has come: the nodes where its links start have their statements. -/
structure Due (sheet : Sheet) (cs : List Contribution) (n : Value × Value) : Prop where
  mem : n ∈ sheet.nodes
  new : n.1 ∉ cs.map Contribution.node
  sources : ∀ i ∈ inputsOf n.2, ∀ link, linkNumber? i = some link → ∀ m s, sheet.From link m s →
    m.1 ∈ cs.map Contribution.node

/-- The arguments of a node: those of links have the variables of their roots, and the others are
widget values or missing. -/
structure Supplies (sheet : Sheet) (nodesInfo : Value) (cs : List Contribution) (d : Draft)
    (node : Value) (arguments : List Argument) : Prop where
  linked : ∀ p input link, ArgumentAt nodesInfo node p input link →
    ∃ x sole, arguments[p]? = some (.held x (typeOf input) sole) ∧
      (sole = true ↔ sheet.Sole link) ∧ sheet.Carries cs link x ∧ x ∈ d.names ∧ x ≠ "_" ∧ IsWordy x
  other : ∀ (p : Nat) a, arguments[p]? = some a →
    (∃ input link, ArgumentAt nodesInfo node p input link) ∨ a = .absent ∨
      ∃ widgets name v, widgetArguments nodesInfo node (typeOf node) = .ok widgets ∧
        (name, .widget v) ∈ widgets ∧ a = .widget v
  length : ∀ names, declaredNames nodesInfo (typeOf node) = .ok names →
    arguments.length = names.length

section Arguments

variable {sheet : Sheet} {nodesInfo : Value} {cs : List Contribution} {d : Draft}
  {n : Value × Value} (h : sheet.Sound nodesInfo)

include h

theorem hashable_of_mem (hn : n ∈ sheet.nodes) : n.1.hashable = true := (h.ids n hn).hashable

theorem Written.beq_false (hn : n ∈ sheet.nodes) (hnew : n.1 ∉ cs.map Contribution.node)
    {m : Value × Value} (hm : m ∈ sheet.nodes) (hdone : m.1 ∈ cs.map Contribution.node) :
    (m.1 == n.1) = false := by
  rw [Bool.eq_false_iff]
  exact fun heq => hnew ((h.id_beq hm hn).mp heq ▸ hdone)

theorem Written.linkedArgument (hw : sheet.Written cs d) (hn : n ∈ sheet.nodes)
    (hnew : n.1 ∉ cs.map Contribution.node) {input link : Value} (hi : input ∈ inputsOf n.2)
    (hlink : linkNumber? input = some link)
    (hsource : ∀ m s, sheet.From link m s → m.1 ∈ cs.map Contribution.node) {g : Graph}
    (hg : d.graph.Beside n.1 g) :
    ∃ x sole, linkedArgument g input link =
        ((input.field "type").map fun type => .held x type sole) ∧
      (sole = true ↔ sheet.Sole link) ∧ sheet.Carries cs link x ∧ x ∈ d.names ∧ x ≠ "_" ∧
      IsWordy x := by
  obtain ⟨m, s, o, hfrom, ho, hmem, -⟩ := h.exists_from hn hi hlink
  obtain ⟨e, he, rfl, hesource, hslot⟩ := hfrom.edge
  obtain ⟨x, hheld, hbears⟩ := hw.holds m hfrom.mem (hsource m s hfrom) s o ho
    (ne_nil_of_mem hmem)
  obtain ⟨links, hlinks⟩ : ∃ links, o.field? "links" = some (.list links) := by
    refine ((h.nodes m hfrom.mem).links o (mem_of_getElem? ho)).resolve_left fun hnull => ?_
    rw [linksOf, itemsAt, hnull] at hmem
    cases hmem
  have hlinksOf : linksOf o = links := by rw [linksOf, itemsAt, hlinks]
  have hholds := hheld.has.holds (Written.beq_false h hn hnew hfrom.mem (hsource m s hfrom))
    (hw.ends e he) hesource hslot ho hlinks
  refine ⟨x, links.length == 1, (hholds.of_beside hg).linkedArgument input, ?_, ⟨m, s, hfrom, hbears⟩,
    hheld.inUse, hheld.notBlank, hheld.wordy⟩
  rw [beq_iff_eq, ← hlinksOf]
  constructor
  · exact fun hone => ⟨m, s, o, hfrom, ho, hone⟩
  · rintro ⟨m', s', o', hfrom', ho', hone⟩
    obtain ⟨rfl, rfl⟩ := From.unique h hfrom hfrom'
    rwa [some.inj (ho.symm.trans ho')]

theorem Written.supplies (hw : sheet.Written cs d) (hdue : sheet.Due cs n) {inputs : List Value}
    {widgets named : List (String × Argument)} {g : Graph} (hg : d.graph.Beside n.1 g)
    (hwidgets : widgetArguments nodesInfo n.2 (typeOf n.2) = .ok widgets)
    (hperm : inputs.Perm (inputsOf n.2)) (hlinked : linkedArguments g inputs widgets = .ok named)
    {arguments : List Argument} (hpositional : positional nodesInfo (typeOf n.2)
      (fun name => Table.find? name named) .absent = .ok arguments) :
    sheet.Supplies nodesInfo cs d n.2 arguments := by
  obtain ⟨hn, hnew, hsources⟩ := hdue
  obtain ⟨hfind, hother⟩ := find?_of_linkedArguments hlinked fun i hi j hj =>
    (h.nodes n hn).names i (hperm.subset hi) j (hperm.subset hj)
  rw [positional_eq] at hpositional
  obtain ⟨names, hnames, rfl⟩ := ok_of_map hpositional
  refine ⟨fun p input link hp => ?_, fun p a ha => ?_, fun names' hnames' => ?_⟩
  · obtain ⟨hi, hlink, names', name, hnames', hp, hname⟩ := hp
    obtain rfl : names = names' := Except.ok.inj (hnames.symm.trans hnames')
    obtain ⟨a, ha, hget⟩ := hfind input (hperm.symm.subset hi) link name hlink hname
    obtain ⟨x, sole, heq, hrest⟩ := hw.linkedArgument h hn hnew hi hlink
      (hsources input hi link hlink) hg
    rw [heq] at ha
    obtain ⟨type, htype, rfl⟩ := ok_of_map ha
    exact ⟨x, sole, by simp [hp, hget, typeOf_of_field htype], hrest⟩
  · rw [getElem?_map, map_eq_some_iff] at ha
    obtain ⟨name?, hp, rfl⟩ := ha
    cases name? with
    | none => exact .inr (.inl rfl)
    | some name =>
      by_cases hinput : ∃ i ∈ inputs, linkNumber? i ≠ none ∧ nameOf? i = some name
      · obtain ⟨i, hi, hlink, hname⟩ := hinput
        obtain ⟨link, hlink⟩ := ne_none_iff_exists'.mp hlink
        exact .inl ⟨i, link, hperm.subset hi, hlink, names, name, hnames, hp, hname⟩
      · have hget := hother name fun i hi hlink hname => hinput ⟨i, hi, hlink, hname⟩
        rw [bind_some, hget]
        cases hwidget : Table.find? name widgets with
        | none => exact .inr (.inl rfl)
        | some a =>
          have hmem := Table.mem_of_find? hwidget
          unfold widgetArguments at hwidgets
          split at hwidgets
          · cases hwidgets
            cases hmem
          next values hvalues =>
            obtain ⟨ws, hws, hwidgets'⟩ := ok_of_bind hwidgets
            cases hwidgets'
            obtain ⟨entry, -, heq⟩ := mem_map.mp hmem
            cases heq
            refine .inr (.inr ⟨_, entry.1, entry.2, ?_, hmem, rfl⟩)
            unfold widgetArguments
            simp only [hvalues]
            exact hwidgets
  · rw [length_map, Except.ok.inj (hnames.symm.trans hnames')]

end Arguments

section Takes

variable {sheet : Sheet} {nodesInfo node : Value} {cs : List Contribution} {d : Draft}
  {arguments : List Argument} (h : sheet.Supplies nodesInfo cs d node arguments) {p : Nat}

include h

theorem Supplies.name?_cases {a : Argument} (ha : arguments[p]? = some a) {x : String}
    (hx : a.name? = some x) : ∃ input link, ArgumentAt nodesInfo node p input link := by
  rcases h.other p a ha with hinput | rfl | ⟨-, -, v, -, -, rfl⟩
  · exact hinput
  · cases hx
  · cases hx

theorem Supplies.twinAt_iff {o : Value} (hnull : (typeOf o == .null) = false) :
    TwinAt arguments (typeOf o) p ↔ IsTwin nodesInfo node o p := by
  constructor
  · rintro ⟨a, ha, htype, htext⟩
    obtain ⟨input, link, hp⟩ := h.name?_cases ha (name?_of_twin hnull htype htext)
    obtain ⟨x, sole, hget, -⟩ := h.linked p input link hp
    obtain rfl := some.inj (ha.symm.trans hget)
    exact ⟨input, link, hp, htype⟩
  · rintro ⟨input, link, hp, htype⟩
    obtain ⟨x, sole, hget, -, -, -, hne, -⟩ := h.linked p input link hp
    exact ⟨_, hget, htype, hne⟩

theorem Supplies.movable_iff :
    Movable arguments p ↔ ∃ input link, ArgumentAt nodesInfo node p input link ∧ sheet.Sole link := by
  constructor
  · rintro ⟨a, ha, hmove⟩
    obtain ⟨x, hx⟩ := Argument.exists_name?_of_mayMove? hmove
    obtain ⟨input, link, hp⟩ := h.name?_cases ha hx
    obtain ⟨y, sole, hget, hsole, -⟩ := h.linked p input link hp
    obtain rfl := some.inj (ha.symm.trans hget)
    exact ⟨input, link, hp, hsole.mp (some.inj hmove)⟩
  · rintro ⟨input, link, hp, hsole⟩
    obtain ⟨x, sole, hget, hiff, -⟩ := h.linked p input link hp
    exact ⟨_, hget, congrArg some (hiff.mpr hsole)⟩

theorem takes_iff (hnull : ∀ o ∈ outputsOf node, (typeOf o == .null) = false) {s : Nat} :
    Takes (outputsOf node) arguments s p ↔ sheet.TakesOver nodesInfo node s p := by
  have honly {o : Value} (ho : o ∈ outputsOf node) (q : Nat) :
      OnlyTwin arguments (typeOf o) q ↔ IsOnlyTwin nodesInfo node o q := by
    unfold OnlyTwin IsOnlyTwin
    simp only [h.twinAt_iff (hnull o ho)]
  have hwants (r : Nat) : Wants (outputsOf node) arguments r p ↔
      ∃ o, (outputsOf node)[r]? = some o ∧ linksOf o ≠ [] ∧ IsOnlyTwin nodesInfo node o p :=
    exists_congr fun o => and_congr_right fun ho =>
      and_congr_right fun _ => honly (mem_of_getElem? ho) p
  constructor
  · rintro ⟨hw, hm, hfirst⟩
    refine ⟨(hwants s).mp hw, h.movable_iff.mp hm, fun r hr o ho hlinks hp => ?_⟩
    exact hfirst r hr ((hwants r).mpr ⟨o, ho, hlinks, hp⟩)
  · rintro ⟨hw, hm, hfirst⟩
    refine ⟨(hwants s).mpr hw, h.movable_iff.mpr hm, fun r hr hwants' => ?_⟩
    obtain ⟨o, ho, hlinks, hp⟩ := (hwants r).mp hwants'
    exact hfirst r hr o ho hlinks hp

theorem Supplies.assignable (hnode : IsOrdinaryNode nodesInfo node) {names : List String}
    (hnames : ∀ x ∈ d.names, x ∈ names) : Assignable names arguments where
  inUse a ha x hx := by
    obtain ⟨p, hp⟩ := mem_iff_getElem?.mp ha
    obtain ⟨input, link, hinput⟩ := h.name?_cases hp hx
    obtain ⟨y, sole, hget, -, -, hin, hne, hwordy⟩ := h.linked p input link hinput
    obtain rfl := some.inj (hp.symm.trans hget)
    obtain rfl := some.inj hx
    exact ⟨hnames _ hin, hne, hwordy⟩
  noAny a ha := by
    obtain ⟨p, hp⟩ := mem_iff_getElem?.mp ha
    rcases h.other p a hp with ⟨input, link, hinput⟩ | rfl | ⟨-, -, v, -, -, rfl⟩
    · obtain ⟨y, sole, hget, -⟩ := h.linked p input link hinput
      obtain rfl := some.inj (hp.symm.trans hget)
      exact hnode.inputs input hinput.mem
    · rfl
    · rfl

theorem Supplies.unmarked (hnode : IsOrdinaryNode nodesInfo node) :
    ∀ a ∈ arguments, Unmarked a.text.toList := by
  intro a ha
  obtain ⟨p, hp⟩ := mem_iff_getElem?.mp ha
  rcases h.other p a hp with ⟨input, link, hinput⟩ | rfl | ⟨widgets, name, v, hwidgets, hmem, rfl⟩
  · obtain ⟨y, sole, hget, -, -, -, -, hwordy⟩ := h.linked p input link hinput
    obtain rfl := some.inj (hp.symm.trans hget)
    exact unmarked_of_blank_not_mem fun hblank => absurd (hwordy _ hblank) (by decide)
  · exact unmarked_of_blank_not_mem (by decide)
  · exact hnode.widgets widgets hwidgets _ hmem

end Takes

/-- What the statement of an ordinary node reads and writes: the arguments of links are variables that
statements before have for their roots, and each target is such a variable that is taken over, or no
target of a statement before. -/
structure Statement (sheet : Sheet) (nodesInfo : Value) (earlier : List Contribution) (node : Value)
    (c : Contribution) : Prop where
  call : ∃ callee, c.statement = some (c.targets.call callee) ∧
    c.line = (c.targets.call callee).text
  used : ∀ x ∈ c.targets.names, x ≠ "_" → c.targets.used = true
  reads : ∀ p input link, ArgumentAt nodesInfo node p input link →
    ∃ x, x ≠ "_" ∧ c.targets.arguments[p]?.bind Argument.name? = some x ∧
      sheet.Carries earlier link x
  origin : ∀ (s : Nat) x, c.targets.names[s]? = some x → x ≠ "_" →
    (∃ p input link, sheet.TakesOver nodesInfo node s p ∧ ArgumentAt nodesInfo node p input link ∧
      sheet.Carries earlier link x) ∨
    (∀ e ∈ earlier, x ∉ e.targets.names) ∧ ∀ r < s, c.targets.names[r]? ≠ some x
  gives : ∀ s p input link, sheet.TakesOver nodesInfo node s p →
    ArgumentAt nodesInfo node p input link →
    ∃ x, x ≠ "_" ∧ c.targets.names[s]? = some x ∧ sheet.Carries earlier link x

/-- What a node contributes: a statement, or nothing if it only passes on a value. -/
structure Contributes (sheet : Sheet) (nodesInfo : Value) (earlier : List Contribution)
    (n : Value × Value) (c : Contribution) : Prop where
  node : c.node = n.1
  reroute : Reroutes n.2 → c.line = ""
  ordinary : ¬ Reroutes n.2 → sheet.Statement nodesInfo earlier n.2 c

section Emission

variable {sheet : Sheet} {nodesInfo : Value} {cs : List Contribution} {d d' : Draft} {n : Value × Value}
  {c : Contribution} (h : sheet.Sound nodesInfo) {node : Value} {t : Targets}

include h

theorem Written.of_run_sketch (hw : sheet.Written cs d) (hdue : sheet.Due cs n) {type : String}
    (htype : typeOf n.2 = .str type) {k : Sketch} (hrun : (sketch nodesInfo n.1).run d = (.ok k, d')) :
    ∃ arguments d₁ fields named t,
      k = ⟨n.2, .int 0, .str type, Identifier.classId type, named, t⟩ ∧
      sheet.Supplies nodesInfo cs d n.2 arguments ∧ d.graph.Beside n.1 d₁.graph ∧
      (∀ x ∈ d.names, x ∈ d₁.names) ∧
      d₁.graph.vertex? n.1 = some ⟨n.1, some (.record fields), none⟩ ∧
      (assignOutputs n.1 n.2 arguments).run d₁ = (.ok t, d') := by
  have hn := hdue.mem
  have hv := hw.pending n hn hdue.new
  have hnode : d.graph.nodeOf n.1 = .ok n.2 := by
    simp [Graph.nodeOf, hashable_of_mem h hn, hv]
  have hid : (n.1 == n.1) = true := (h.id_beq hn hn).mpr rfl
  obtain ⟨node, mode, type', callee, named, t⟩ := k
  obtain ⟨name, widgets, inputs, arguments, hnode', hmode, htype', hname, hcallee, hwidgets, harranged,
    hlinked, hpositional, htargets⟩ := run_sketch_iff.mp hrun
  obtain rfl : n.2 = node := Except.ok.inj (hnode.symm.trans hnode')
  obtain rfl : Value.int 0 = mode := some.inj
    ((h.nodes n hn).mode.symm.trans (field_eq_ok_iff.mp hmode))
  obtain rfl : type' = .str type := (typeOf_of_field htype').symm.trans htype
  obtain rfl : type = name := Except.ok.inj hname
  obtain rfl : callee = Identifier.classId type := hcallee
  obtain ⟨fields, hfields⟩ := (h.nodes n hn).record
  have hbeside := Graph.Beside.modifyVertex d.graph n.1 (Mark.ofInputs inputs).id_apply
  obtain ⟨fields₂, hv₂⟩ : ∃ fields₂, (d.graph.modifyVertex n.1 (Mark.ofInputs inputs).apply).vertex? n.1 =
      some ⟨n.1, some (.record fields₂), none⟩ := by
    rw [Graph.vertex?_modifyVertex _ _ _ (Mark.id_apply _), hv, hfields, map_some, if_pos hid]
    cases inputs with
    | none => exact ⟨_, rfl⟩
    | some sorted => exact ⟨_, rfl⟩
  refine ⟨arguments, _, fields₂, named, t, rfl, ?_, hbeside, fun x hx => mem_declare_iff.mpr (.inl hx),
    hv₂, htargets⟩
  rw [← htype] at hwidgets hpositional
  exact hw.supplies h hdue hbeside hwidgets harranged.perm hlinked hpositional

theorem Written.append (hw : sheet.Written cs d) (hn : n ∈ sheet.nodes) (hnode : c.node = n.1)
    (hbeside : d.graph.Beside n.1 d'.graph) (hgrows : ∀ x ∈ d.names, x ∈ d'.names)
    (hnames : ∀ x ∈ c.targets.names, x ≠ "_" → x ∈ d'.names)
    (hheld : ∀ (s : Nat) o, (outputsOf n.2)[s]? = some o → linksOf o ≠ [] →
      ∃ x, d'.Holding n.1 (outputsOf n.2) s x ∧ sheet.Bears (cs ++ [c]) n s x) :
    sheet.Written (cs ++ [c]) d' := by
  have hdone : (cs ++ [c]).map Contribution.node = cs.map Contribution.node ++ [n.1] := by
    rw [map_append, map_singleton, hnode]
  have hother {m : Value × Value} (hm : m ∈ sheet.nodes) (hne : m ≠ n) : (m.1 == n.1) = false := by
    rw [Bool.eq_false_iff]
    exact fun heq => hne ((h.id_beq hm hn).mp heq)
  refine ⟨fun e he => ?_, fun m hm hnew => ?_, fun c' hc' x hx hne => ?_,
    fun m hm hin s o ho hlinks => ?_⟩
  · rw [hbeside.endOf]
    exact hw.ends e he
  · rw [hdone, mem_append, mem_singleton, not_or] at hnew
    exact hbeside.others _ _ (hw.pending m hm hnew.1) (hother hm fun heq => hnew.2 (heq ▸ rfl))
  · rcases mem_append.mp hc' with hold | hlast
    · exact hgrows x (hw.names c' hold x hx hne)
    · exact hnames x (mem_singleton.mp hlast ▸ hx) hne
  · rw [hdone, mem_append, mem_singleton] at hin
    by_cases hmn : m = n
    · exact hmn ▸ hheld s o (hmn ▸ ho) hlinks
    · have hm' := hin.resolve_right fun heq => hmn (h.eq_of_id hm hn heq)
      obtain ⟨x, hheld, hbears⟩ := hw.holds m hm hm' s o ho hlinks
      exact ⟨x, ⟨hheld.has.of_beside hbeside (hother hm hmn), hgrows x hheld.inUse, hheld.notBlank,
        hheld.wordy⟩, hbears.mono fun c' hc' => mem_append_left _ hc'⟩

omit h in
theorem IsOrdinaryNode.isOutput (hordinary : IsOrdinaryNode nodesInfo node) (hnode : InOrder node) {s : Nat}
    {o : Value} (ho : (outputsOf node)[s]? = some o) :
    IsOutput node ((outputsOf node).length == 1) s o :=
  have hmem := mem_of_getElem? ho
  ⟨hnode.slots s o ho, hordinary.outputs o hmem, hnode.links o hmem, hordinary.names o hmem⟩

theorem named_of_run (hn : n ∈ sheet.nodes) (hnot : ¬ Reroutes n.2) {arguments : List Argument}
    (harguments : Assignable d.names arguments) {fields : List (String × Value)}
    (hv : d.graph.vertex? n.1 = some ⟨n.1, some (.record fields), none⟩)
    (hrun : (assignOutputs n.1 n.2 arguments).run d = (.ok t, d')) :
    t.names.length = (outputsOf n.2).length ∧
      ∃ fields, Named n.1 (outputsOf n.2) arguments d ⟨n.1, some (.record fields), none⟩ t d' ∧
        (outputsOf n.2 ≠ [] → Value.lookup "outputs" fields = some (.list (outputsOf n.2))) := by
  have hid : (n.1 == n.1) = true := (h.id_beq hn hn).mpr rfl
  have hnode := h.nodes n hn
  have hordinary := h.ordinary n hn hnot
  obtain ⟨hfield, rfl, rfl⟩ | ⟨outputs, -, hfield, -⟩ := assignOutputs_cases hrun
  · have hnil : outputsOf n.2 = [] := by rw [outputsOf, itemsAt, hfield]
    exact ⟨by rw [hnil]; rfl, fields, .start hv rfl (.refl _ _) fun x hx => hx, fun hne =>
      absurd hnil hne⟩
  · have houtputs : outputsOf n.2 = outputs := by rw [outputsOf, itemsAt, hfield]
    have hsorted := hnode.sorted
    have hslots := fun s o => IsOrdinaryNode.isOutput hordinary hnode (s := s) (o := o)
    rw [houtputs] at hsorted hslots ⊢
    obtain ⟨hlength, hnamed⟩ := of_run_assignOutputs hfield hsorted hslots harguments hv hid rfl hrun
    refine ⟨hlength, Value.put "outputs" (.list outputs) fields, hnamed, fun _ => ?_⟩
    rw [Value.put_eq_tablePut, Value.lookup_eq_find?, Table.find?_put_self]

/-- The sketch of an ordinary node becomes a call in full. -/
theorem Written.sketch_ordinary (hw : sheet.Written cs d) (hdue : sheet.Due cs n) (hnot : ¬ Reroutes n.2)
    {k : Sketch} (hrun : (sketch nodesInfo n.1).run d = (.ok k, d')) :
    ∃ c, contribute nodesInfo n.1 k.node k.mode k.type k.callee k.named k.targets =
        (choiceOfNode nodesInfo n.2).map (fun _ => c) ∧
      c.node = n.1 ∧ sheet.Statement nodesInfo cs n.2 c ∧ sheet.Written (cs ++ [c]) d' := by
  have hn := hdue.mem
  have hordinary := h.ordinary n hn hnot
  obtain ⟨type, htype, hisOrdinary⟩ := hordinary.type
  obtain ⟨arguments, d₁, fields, named, t, rfl, hsupplies, hbeside, hgrows, hv, hassign⟩ :=
    hw.of_run_sketch h hdue htype hrun
  obtain ⟨hlength, fields', ht, houtputs⟩ := named_of_run h hn hnot
    (hsupplies.assignable hordinary hgrows) hv hassign
  have htakes {s p : Nat} : Takes (outputsOf n.2) arguments s p ↔
      sheet.TakesOver nodesInfo n.2 s p := takes_iff hsupplies hordinary.outputs
  refine ⟨⟨n.1, t, some (t.call (Identifier.classId type)), (t.call (Identifier.classId type)).text⟩,
    ?_, ?_⟩
  · dsimp only
    cases hchoice : choiceOfNode nodesInfo n.2 with
    | error e =>
      change (choiceOfNode nodesInfo n.2 >>= _) = _
      rw [hchoice]
      rfl
    | ok choice =>
      obtain rfl := choice_eq_none h hn hchoice
      exact contribute_of_isOrdinary hisOrdinary hchoice n.1 named ht.not_mem_targets
        (ht.kept.unmarked (hsupplies.unmarked hordinary))
  -- an argument of a link is held by the variable of its root
  have hcarries {p : Nat} {input link : Value} (hp : ArgumentAt nodesInfo n.2 p input link)
      {a : Argument} (ha : arguments[p]? = some a) {x : String} (hx : a.name? = some x) :
      x ≠ "_" ∧ sheet.Carries cs link x := by
    obtain ⟨y, sole, hget, -, hcarries, -, hne, -⟩ := hsupplies.linked p input link hp
    obtain rfl := some.inj (ha.symm.trans hget)
    obtain rfl := some.inj hx
    exact ⟨hne, hcarries⟩
  refine ⟨rfl, ⟨⟨_, rfl, rfl⟩, fun x hx hne => (ht.named x hx hne).1, fun p input link hp => ?_,
    fun s x hs hne => ?_, fun s p input link hs hp => ?_⟩, ?_⟩
  · obtain ⟨x, sole, hget, -, hcarries, -, hne, -⟩ := hsupplies.linked p input link hp
    exact ⟨x, hne, ht.kept.bind_name? hget, hcarries⟩
  · rcases ht.origin s x hs hne with ⟨p, a, hp, ha, hx⟩ | ⟨hfresh, hfirst⟩
    · obtain ⟨input, link, hinput⟩ := hsupplies.name?_cases ha hx
      exact .inl ⟨p, input, link, htakes.mp hp, hinput, (hcarries hinput ha hx).2⟩
    · exact .inr ⟨fun e he hx => hfresh (hgrows x (hw.names e he x hx hne)), hfirst⟩
  · obtain ⟨o, ho, -⟩ := hs.wants
    obtain ⟨a, x, ha, hx, hname⟩ := ht.gives s p (htakes.mpr hs)
      (hlength ▸ (List.getElem?_eq_some_iff.mp ho).1)
    obtain ⟨hne, hcarried⟩ := hcarries hp ha hx
    exact ⟨x, hne, hname, hcarried⟩
  · refine hw.append h hn rfl (hbeside.trans ht.beside) (fun x hx => ht.grows x (hgrows x hx))
      (fun x hx hne => (ht.named x hx hne).2.1) fun s o ho hlinks => ?_
    obtain ⟨x, hx, hheld⟩ := ht.holding
      (houtputs (ne_nil_of_mem (mem_of_getElem? ho))) hlength ho hlinks
    exact ⟨x, hheld, n, s, .ordinary hnot, _, mem_append_right _ mem_cons_self, rfl, hx⟩

theorem Written.emit_ordinary (hw : sheet.Written cs d) (hdue : sheet.Due cs n) (hnot : ¬ Reroutes n.2)
    (hrun : (emit nodesInfo n.1).run d = (.ok c, d')) :
    c.node = n.1 ∧ sheet.Statement nodesInfo cs n.2 c ∧ sheet.Written (cs ++ [c]) d' := by
  obtain ⟨k, hk, hcontribute⟩ := of_run_emit hrun
  obtain ⟨c', hc', hrest⟩ := hw.sketch_ordinary h hdue hnot hk
  rw [hc'] at hcontribute
  obtain ⟨choice, -, rfl⟩ := ok_of_map hcontribute
  exact hrest

omit h in
theorem eq_of_run_chooseVariable {o type : Value} {x y : String} {sole : Bool}
    (hany : (type == .str "*") = true) {t' : Targets}
    (hrun : (chooseVariable node o true ⟨[.held x type sole], [], [], false⟩).run d =
      (.ok (y, t'), d'))
    : y = x ∧ t'.names = [] ∧ d' = d := by
  have hfilter : ([Argument.held x type sole].filter fun a => a.type == .str "*") =
      [.held x type sole] := by
    simp [Argument.type, hany]
  have hother {d d' : Draft} {y : String}
      (h : (otherVariable node o true [.held x type sole]).run d = (.ok y, d')) :
      y = x ∧ d' = d := by
    unfold otherVariable at h
    rw [hfilter] at h
    obtain ⟨rfl, rfl⟩ := of_run_pure h
    exact ⟨rfl, rfl⟩
  obtain ⟨twins, htwins, ⟨i, a, rfl, -, rfl, rfl, rfl⟩ | ⟨hrun, hcases⟩⟩ := chooseVariable_cases hrun
  · have ha : a ∈ [Argument.held x type sole] := mem_of_mem_twinsOf htwins _ mem_cons_self
    obtain rfl := mem_singleton.mp ha
    exact ⟨rfl, rfl, rfl⟩
  · obtain ⟨rfl, rfl⟩ := hother hrun
    obtain ⟨i, a, -, -, rfl⟩ | ⟨-, rfl⟩ := hcases
    · exact ⟨rfl, rfl, rfl⟩
    · exact ⟨rfl, rfl, rfl⟩

omit h in
theorem of_run_assignOutputs_passing {id o type : Value} {x : String} {sole : Bool} (hnode : InOrder node)
    (houtputs : outputsOf node = [o]) (hid : (id == id) = true) {fields : List (String × Value)}
    (hv : d.graph.vertex? id = some ⟨id, some (.record fields), none⟩) (hany : (type == .str "*") = true)
    (hrun : (assignOutputs id node [.held x type sole]).run d = (.ok t, d')) :
    d.graph.Beside id d'.graph ∧ d'.names = d.names ∧
      (t.names = ["_"] ∧ linksOf o = [] ∨ t.names = [x] ∧ d'.graph.Has id [o] 0 x) := by
  have hfield : node.field? "outputs" = some (.list [o]) := by
    unfold outputsOf itemsAt at houtputs
    split at houtputs
    next items hitems => rw [hitems, houtputs]
    · cases houtputs
  have hsorted := hnode.sorted
  have hslot : slotOf o true 0 = .int (0 : Nat) := by
    have hslot := hnode.slots 0 o (by rw [houtputs]; rfl)
    rwa [houtputs] at hslot
  have hlinks := hnode.links o (houtputs ▸ mem_singleton_self o)
  rw [houtputs] at hsorted
  replace hrun := of_run_assignOutputs_sorted hfield hsorted hrun
  have hbeside : d.graph.Beside id (d.graph.modifyVertex id (Vertex.withOutputs [o])) :=
    .modifyVertex _ _ fun _ => rfl
  have hv' : (d.graph.modifyVertex id (Vertex.withOutputs [o])).vertex? id =
      some ⟨id, some (.record (Value.put "outputs" (.list [o]) fields)), none⟩ := by
    rw [Graph.vertex?_modifyVertex d.graph id id (f := Vertex.withOutputs [o]) fun _ => rfl, hv,
      map_some]
    exact congrArg some (if_pos hid)
  obtain ⟨t₁, d₁, hassign, hrun⟩ := of_run_bind hrun
  obtain ⟨rfl, rfl⟩ := of_run_pure hrun
  change (assignOutput id node true ⟨[.held x type sole], [], [], false⟩ o 0).run _ = _ at hassign
  obtain ⟨hunused, rfl, rfl⟩ | ⟨-, y, t₂, d₂, hchoose, hrecord, rfl⟩ := assignOutput_cases hassign
  · rw [isUsed_eq hlinks] at hunused
    exact ⟨hbeside, rfl, .inl ⟨rfl, by simpa using hunused⟩⟩
  · obtain ⟨rfl, hnames, rfl⟩ := eq_of_run_chooseVariable hany hchoose
    obtain ⟨d₄, hrecord', hnames', hbeside', hv''⟩ := run_recordOutput
      (d := { d with graph := d.graph.modifyVertex id (Vertex.withOutputs [o]) }) hv' hid (0 : Nat) y
    rw [hslot, hrecord'] at hrecord
    obtain rfl : d₄ = _ := congrArg Prod.snd hrecord
    refine ⟨hbeside.trans hbeside', hnames', .inr ⟨by simp [hnames], _, _, hv'', ?_, ?_⟩⟩
    · rw [Value.put_eq_tablePut, Value.lookup_eq_find?, Table.find?_put_self]
    · rw [Value.find?_put_int (by simp), if_pos rfl]

omit h in
theorem declaredNames_of_reroutes (hnode : Reroutes node) :
    declaredNames nodesInfo (typeOf node) = .ok [some ""] := by
  obtain ⟨type, hmem, htype⟩ := hnode
  rw [htype]
  simp only [rerouteTypes, mem_cons, not_mem_nil, or_false] at hmem
  rcases hmem with rfl | rfl <;> rfl

omit h in
theorem line_of_contribute {id : Value} {type callee : String} (htype : type ∈ rerouteTypes)
    {named : List (String × Argument)}
    (hc : contribute nodesInfo id node (.int 0) (.str type) callee named t = .ok c) :
    c.node = id ∧ c.targets = t ∧ c.line = "" := by
  have htypeIn : typeIn rerouteTypes (.str type) = true :=
    any_eq_true.mpr ⟨type, htype, by rw [Value.str_beq_str, beq_self_eq_true]⟩
  obtain ⟨choice, -, hc⟩ := ok_of_bind hc
  obtain ⟨line, hline, hc⟩ := ok_of_bind hc
  obtain rfl := Except.ok.inj hc
  refine ⟨rfl, rfl, ?_⟩
  rcases of_runPasses_cons hline with hempty | ⟨text, hpass, hne, -⟩
  · exact hempty
  · unfold dropReroute at hpass
    rw [if_neg (by simp [subjectOf, htypeIn])] at hpass
    split at hpass
    · exact absurd (Except.ok.inj hpass).symm hne
    · cases hpass

theorem Written.emit_reroute (hw : sheet.Written cs d) (hdue : sheet.Due cs n) (hreroute : Reroutes n.2)
    (hrun : (emit nodesInfo n.1).run d = (.ok c, d')) :
    c.node = n.1 ∧ c.line = "" ∧ sheet.Written (cs ++ [c]) d' := by
  have hn := hdue.mem
  obtain ⟨type, hmem, htype⟩ := hreroute
  obtain ⟨⟨i, link, hinputs, hname, hany, hlink⟩, o, houtputs⟩ := h.reroutes n hn ⟨type, hmem, htype⟩
  obtain ⟨k, hk, hcontribute⟩ := of_run_emit hrun
  obtain ⟨arguments, d₁, fields, named, t, rfl, hsupplies, hbeside, hgrows, hv, hassign⟩ :=
    hw.of_run_sketch h hdue htype hk
  have hi : i ∈ inputsOf n.2 := hinputs ▸ mem_singleton_self i
  have hdeclared : declaredNames nodesInfo (typeOf n.2) = .ok [some ""] :=
    declaredNames_of_reroutes ⟨type, hmem, htype⟩
  -- the only argument is the variable that the link brings
  obtain ⟨x, sole, hget, -, ⟨m, r, hfrom, u, s, hroot, hbears⟩, hin, hne, hwordy⟩ :=
    hsupplies.linked 0 i link ⟨hi, hlink, _, "", hdeclared, rfl, hname⟩
  obtain ⟨a, rfl⟩ := length_eq_one_iff.mp (hsupplies.length _ hdeclared)
  obtain rfl := some.inj hget
  obtain ⟨hbeside', hnames, houtput⟩ := of_run_assignOutputs_passing (h.nodes n hn) houtputs
    ((h.id_beq hn hn).mpr rfl) hv hany hassign
  obtain ⟨hnode, rfl, hline⟩ := line_of_contribute hmem hcontribute
  have hin' : x ∈ d'.names := hnames ▸ hgrows x hin
  refine ⟨hnode, hline, hw.append h hn hnode (hbeside.trans hbeside')
    (fun y hy => hnames ▸ hgrows y hy) (fun y hy hyne => ?_) fun s' o' ho' hlinks => ?_⟩
  · rcases houtput with ⟨hblank, -⟩ | ⟨htarget, -⟩
    · rw [hblank, mem_singleton] at hy
      exact absurd hy hyne
    · rw [htarget, mem_singleton] at hy
      exact hy ▸ hin'
  · rw [houtputs, getElem?_singleton] at ho'
    split at ho'
    next hs' =>
      obtain rfl := some.inj ho'
      obtain ⟨-, hhas⟩ := houtput.resolve_left fun hunused => hlinks hunused.2
      subst hs'
      obtain ⟨c', hc', hbears⟩ := hbears
      exact ⟨x, ⟨houtputs ▸ hhas, hin', hne, hwordy⟩, u, s,
        .reroute ⟨type, hmem, htype⟩ hi hlink hfrom hroot, c', mem_append_left _ hc', hbears⟩
    · cases ho'

theorem Written.emit (hw : sheet.Written cs d) (hdue : sheet.Due cs n)
    (hrun : (emit nodesInfo n.1).run d = (.ok c, d')) :
    sheet.Contributes nodesInfo cs n c ∧ sheet.Written (cs ++ [c]) d' := by
  by_cases hreroute : Reroutes n.2
  · obtain ⟨hnode, hline, hw'⟩ := hw.emit_reroute h hdue hreroute hrun
    exact ⟨⟨hnode, fun _ => hline, absurd hreroute⟩, hw'⟩
  · obtain ⟨hnode, hstatement, hw'⟩ := hw.emit_ordinary h hdue hreroute hrun
    exact ⟨⟨hnode, fun hreroute' => absurd hreroute' hreroute, fun _ => hstatement⟩, hw'⟩

end Emission

/-- What nodes of a sheet contribute, each once. -/
structure Statements (sheet : Sheet) (nodesInfo : Value) (cs : List Contribution) : Prop where
  nodup : (cs.map Contribution.node).Nodup
  contributes : ∀ earlier c later, cs = earlier ++ c :: later →
    ∃ n ∈ sheet.nodes, sheet.Contributes nodesInfo earlier n c

theorem Written.start {nodesInfo : Value} (h : sheet.Sound nodesInfo) :
    sheet.Written [] ⟨sheet.graph, []⟩ where
  ends _ he := h.endOf_graph he
  pending _ hn _ := h.vertex?_graph hn
  names _ hc := absurd hc not_mem_nil
  holds _ _ hm := absurd hm not_mem_nil

section Orders

variable {nodesInfo : Value} (h : sheet.Sound nodesInfo) {order : List Value}

theorem IsOrder.due (horder : sheet.IsOrder order) {done : List Contribution} {id : Value}
    {rest : List Value} (hsplit : order = done.map Contribution.node ++ id :: rest) :
    ∃ n, n.1 = id ∧ sheet.Due done n := by
  obtain ⟨n, hn, rfl⟩ := mem_map.mp (horder.known id (hsplit ▸ by simp))
  refine ⟨n, rfl, hn, fun hmem => ?_, horder.sorted _ _ _ hsplit n hn rfl⟩
  have hnodup := horder.nodup
  rw [hsplit] at hnodup
  exact (nodup_append.mp hnodup).2.2 n.1 hmem n.1 mem_cons_self rfl

include h

theorem statements_of_run (horder : sheet.IsOrder order) {d d' : Draft} {cs : List Contribution}
    (hw : sheet.Written [] d) (hrun : (Transpiler.emitAll nodesInfo order).run d = (.ok cs, d')) :
    cs.map Contribution.node = order ∧ sheet.Statements nodesInfo cs := by
  suffices hrest : ∀ rest done d cs, order = done.map Contribution.node ++ rest →
      sheet.Written done d → (Transpiler.emitAll nodesInfo rest).run d = (.ok cs, d') →
      cs.map Contribution.node = rest ∧ ∀ earlier c later, cs = earlier ++ c :: later →
        ∃ n ∈ sheet.nodes, sheet.Contributes nodesInfo (done ++ earlier) n c by
    obtain ⟨hnodes, hall⟩ := hrest order [] d cs rfl hw hrun
    exact ⟨hnodes, hnodes ▸ horder.nodup, hall⟩
  clear hw hrun cs d
  intro rest
  induction rest with
  | nil =>
    intro done d cs _ _ hrun
    obtain ⟨rfl, -⟩ := of_run_pure hrun
    exact ⟨rfl, fun earlier c later hsplit => by simp at hsplit⟩
  | cons id rest ih =>
    intro done d cs hsplit hw hrun
    obtain ⟨c, d₁, cs, hemit, hrest, rfl⟩ := of_run_emitAll_cons hrun
    obtain ⟨n, rfl, hdue⟩ := horder.due hsplit
    obtain ⟨hc, hw'⟩ := hw.emit h hdue hemit
    obtain ⟨hnodes, hall⟩ := ih (done ++ [c]) d₁ cs (by simp [hsplit, hc.node]) hw' hrest
    refine ⟨by rw [map_cons, hc.node, hnodes], fun earlier c' later hsplit => ?_⟩
    cases earlier with
    | nil =>
      obtain ⟨rfl, -⟩ := cons.inj hsplit
      exact ⟨n, hdue.mem, by simpa using hc⟩
    | cons b earlier =>
      obtain ⟨rfl, htail⟩ := cons.inj hsplit
      simpa using hall earlier c' later htail

theorem IsOrder.exists_run (horder : sheet.IsOrder order)
    (hemit : ∀ cs d n, sheet.Written cs d → sheet.Due cs n →
      ∃ c d', (emit nodesInfo n.1).run d = (.ok c, d'))
    {d : Draft} (hw : sheet.Written [] d) :
    ∃ cs d', (Transpiler.emitAll nodesInfo order).run d = (.ok cs, d') := by
  suffices hrest : ∀ rest done d, order = done.map Contribution.node ++ rest → sheet.Written done d →
      ∃ cs d', (Transpiler.emitAll nodesInfo rest).run d = (.ok cs, d') from hrest order [] d rfl hw
  intro rest
  induction rest with
  | nil => exact fun done d _ _ => ⟨[], d, rfl⟩
  | cons id rest ih =>
    intro done d hsplit hw
    obtain ⟨n, rfl, hdue⟩ := horder.due hsplit
    obtain ⟨c, d₁, hc⟩ := hemit done d n hw hdue
    obtain ⟨hnode, hw'⟩ := hw.emit h hdue hc
    obtain ⟨cs, d', hcs⟩ := ih (done ++ [c]) d₁ (by simp [hsplit, hnode.node]) hw'
    refine ⟨c :: cs, d', ?_⟩
    unfold Transpiler.emitAll
    rw [run_bind_ok hc, run_bind_ok hcs]
    rfl

end Orders

end Sheet

end Flowscript.Workflow
