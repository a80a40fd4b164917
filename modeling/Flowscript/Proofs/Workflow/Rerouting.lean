import Flowscript.Proofs.Workflow.Ends
import Flowscript.Proofs.Workflow.Takeover

/-!
# Nodes that pass on a value

Nodes that only pass on a value leave no statement, so the argument of a link is the variable of its
root. Whether that variable still has the value of the root is another matter: an output may have
taken it over, since its link is the only one that leaves the node before it, while others leave the
root. This module says exactly when every argument has the value of its root.
-/

namespace Flowscript.Workflow

open List Option

/-! ## The last assignment -/

/-- The last assignment of `x` in the statements is at the position `slot` of that of the node `id`. -/
def LastAssigned (cs : List Contribution) (x : String) (id : Value) (slot : Nat) : Prop :=
  ∃ earlier c later, cs = earlier ++ c :: later ∧ c.node = id ∧ c.isActive = true ∧
    c.sets[slot]? = some x ∧ x ∉ c.sets.drop (slot + 1) ∧
    ∀ c' ∈ later, c'.isActive = true → x ∉ c'.sets

theorem eq_of_split {cs earlier later earlier' later' : List Contribution} {c c' : Contribution}
    (hnodup : (cs.map Contribution.node).Nodup) (hsplit : cs = earlier ++ c :: later)
    (hsplit' : cs = earlier' ++ c' :: later') (hnode : c.node = c'.node) :
    earlier = earlier' ∧ c = c' ∧ later = later' := by
  obtain rfl : c = c' := inj_on_of_nodup_map hnodup (by simp [hsplit]) (by simp [hsplit']) hnode
  have hnot {front back : List Contribution} (h : cs = front ++ c :: back) : c ∉ front := by
    intro hmem
    rw [h, map_append, map_cons, nodup_append] at hnodup
    exact hnodup.2.2 _ (mem_map_of_mem hmem) _ mem_cons_self rfl
  rcases append_eq_append_iff.mp (hsplit.symm.trans hsplit') with
    ⟨between, rfl, hrest⟩ | ⟨between, rfl, hrest⟩
  · cases between with
    | nil => exact ⟨by simp, rfl, (cons.inj hrest).2⟩
    | cons b between =>
      obtain ⟨rfl, -⟩ := cons.inj hrest
      exact absurd (by simp) (hnot hsplit')
  · cases between with
    | nil => exact ⟨by simp, rfl, (cons.inj hrest).2.symm⟩
    | cons b between =>
      obtain ⟨rfl, -⟩ := cons.inj hrest
      exact absurd (by simp) (hnot hsplit)

theorem mem_drop_succ {α : Type} {items : List α} {a : α} {r s : Nat} (hr : items[r]? = some a)
    (hlt : s < r) : a ∈ items.drop (s + 1) := by
  refine mem_of_getElem? (i := r - (s + 1)) ?_
  rw [getElem?_drop, ← hr]
  congr 1
  omega

namespace LastAssigned

variable {cs : List Contribution} {c : Contribution} {x : String} {id id' : Value} {s s' : Nat}

theorem append_singleton (h : LastAssigned cs x id s) (hc : c.isActive = true → x ∉ c.sets) :
    LastAssigned (cs ++ [c]) x id s := by
  obtain ⟨earlier, b, later, rfl, hid, hactive, hslot, hrest, hlater⟩ := h
  refine ⟨earlier, b, later ++ [c], by simp, hid, hactive, hslot, hrest, fun c' hc' => ?_⟩
  rcases mem_append.mp hc' with hold | hnew
  · exact hlater c' hold
  · exact mem_singleton.mp hnew ▸ hc

theorem last (cs : List Contribution) (hactive : c.isActive = true) (hc : c.sets[s]? = some x)
    (hrest : x ∉ c.sets.drop (s + 1)) : LastAssigned (cs ++ [c]) x c.node s :=
  ⟨cs, c, [], rfl, rfl, hactive, hc, hrest, fun _ h => absurd h not_mem_nil⟩

theorem unique (h : LastAssigned cs x id s) (h' : LastAssigned cs x id' s') : id = id' ∧ s = s' := by
  obtain ⟨earlier, c, later, hsplit, hid, hactive, hslot, hrest, hlater⟩ := h
  obtain ⟨earlier', c', later', hsplit', hid', hactive', hslot', hrest', hlater'⟩ := h'
  have hslots (heq : c = c') : s = s' := by
    subst heq
    rcases Nat.lt_trichotomy s s' with hlt | heq | hgt
    · exact absurd (mem_drop_succ hslot' hlt) hrest
    · exact heq
    · exact absurd (mem_drop_succ hslot hgt) hrest'
  rcases append_eq_append_iff.mp (hsplit.symm.trans hsplit') with
    ⟨between, rfl, htail⟩ | ⟨between, rfl, htail⟩
  · cases between with
    | nil =>
      obtain ⟨rfl, -⟩ := cons.inj htail
      exact ⟨hid.symm.trans hid', hslots rfl⟩
    | cons b between =>
      obtain ⟨-, rfl⟩ := cons.inj htail
      exact absurd (mem_of_getElem? hslot') (hlater c' (by simp) hactive')
  · cases between with
    | nil =>
      obtain ⟨rfl, -⟩ := cons.inj htail
      exact ⟨hid.symm.trans hid', hslots rfl⟩
    | cons b between =>
      obtain ⟨-, rfl⟩ := cons.inj htail
      exact absurd (mem_of_getElem? hslot) (hlater' c (by simp) hactive)

theorem of_split (h : LastAssigned cs x id s) (hnodup : (cs.map Contribution.node).Nodup)
    {earlier later : List Contribution} (hsplit : cs = earlier ++ c :: later) (hid : c.node = id) :
    c.sets[s]? = some x ∧ x ∉ c.sets.drop (s + 1) ∧
      ∀ c' ∈ later, c'.isActive = true → x ∉ c'.sets := by
  obtain ⟨earlier', c', later', hsplit', hid', -, hslot, hrest, hlater⟩ := h
  obtain ⟨-, rfl, rfl⟩ := eq_of_split hnodup hsplit hsplit' (hid.trans hid'.symm)
  exact ⟨hslot, hrest, hlater⟩

end LastAssigned

namespace Sheet

/-! ## Roots of arguments -/

/-- The statement of an ordinary node has, at the position `p`, the argument of a link whose root is
the output `s` of the node `u`. -/
def ReadsAt (sheet : Sheet) (nodesInfo : Value) (c : Contribution) (p : Nat) (u : Value × Value)
    (s : Nat) : Prop :=
  ∃ v ∈ sheet.nodes, v.1 = c.node ∧ ¬ Reroutes v.2 ∧
    ∃ input link, ArgumentAt nodesInfo v.2 p input link ∧ sheet.Root link u s

/-- A node that only passes on a value leaves nothing, and any other one a call in full. -/
structure Leaves (n : Value × Value) (c : Contribution) : Prop where
  node : c.node = n.1
  reroute : Reroutes n.2 → c.line = ""
  ordinary : ¬ Reroutes n.2 → ∃ callee, c.statement = some (c.targets.call callee) ∧
    c.line = (c.targets.call callee).text

/-- Every argument of a link is the variable that an earlier statement has for its root. -/
def Rooted (sheet : Sheet) (nodesInfo : Value) (cs : List Contribution) : Prop :=
  ∀ earlier c later, cs = earlier ++ c :: later → ∀ p u s, sheet.ReadsAt nodesInfo c p u s →
    ∃ x, x ≠ "_" ∧ c.targets.arguments[p]?.bind Argument.name? = some x ∧
      ∃ e ∈ earlier, e.node = u.1 ∧ e.targets.names[s]? = some x

/-- Every argument of a link is a variable whose last assignment is by the root of the link. -/
def Transparent (sheet : Sheet) (nodesInfo : Value) (cs : List Contribution) : Prop :=
  ∀ earlier c later, cs = earlier ++ c :: later → ∀ p u s, sheet.ReadsAt nodesInfo c p u s →
    ∃ x, c.targets.arguments[p]?.bind Argument.name? = some x ∧ LastAssigned earlier x u.1 s

/-- The output `t` of the node `w` takes over the variable of an argument whose root is the output
`s` of the node `u`. -/
def Overwrites (sheet : Sheet) (nodesInfo : Value) (w : Value × Value) (t : Nat)
    (u : Value × Value) (s : Nat) : Prop :=
  ∃ p input link, sheet.TakesOver nodesInfo w.2 t p ∧ ArgumentAt nodesInfo w.2 p input link ∧
    sheet.Root link u s

/-- Once an output has taken over the variable of a root, no statement reads the root; and if a
later output of the same node takes it over too, no statement reads the first. -/
def Undisturbed (sheet : Sheet) (nodesInfo : Value) (cs : List Contribution) : Prop :=
  ∀ earlier c later, cs = earlier ++ c :: later → ∀ w ∈ sheet.nodes, w.1 = c.node →
    ¬ Reroutes w.2 → ∀ t u s, sheet.Overwrites nodesInfo w t u s →
      ∀ c' ∈ later, ∀ p, ¬ sheet.ReadsAt nodesInfo c' p u s ∧
        ∀ r, t < r → sheet.Overwrites nodesInfo w r u s → ¬ sheet.ReadsAt nodesInfo c' p w t

section Roots

variable {sheet : Sheet} {nodesInfo : Value} (h : sheet.Sound nodesInfo) {u : Value × Value}
  {s t : Nat} {link : Value}

theorem RootOf.mem {n : Value × Value} (hn : n ∈ sheet.nodes) (hroot : sheet.RootOf n s u t) :
    u ∈ sheet.nodes := by
  induction hroot with
  | ordinary => exact hn
  | reroute _ _ _ hfrom _ ih => exact ih hfrom.mem

theorem RootOf.not_reroutes {n : Value × Value} (hroot : sheet.RootOf n s u t) :
    ¬ Reroutes u.2 := by
  induction hroot with
  | ordinary hnot => exact hnot
  | reroute _ _ _ _ _ ih => exact ih

theorem Root.mem (hroot : sheet.Root link u t) :
    u ∈ sheet.nodes := by
  obtain ⟨n, s, hfrom, hroot⟩ := hroot
  exact hroot.mem hfrom.mem

theorem ReadsAt.mem {c : Contribution} {p : Nat} (hreads : sheet.ReadsAt nodesInfo c p u s) :
    u ∈ sheet.nodes := by
  obtain ⟨v, -, -, -, input, link, -, hroot⟩ := hreads
  exact hroot.mem

theorem ReadsAt.not_reroutes {c : Contribution} {p : Nat} (hreads : sheet.ReadsAt nodesInfo c p u s) :
    ¬ Reroutes u.2 := by
  obtain ⟨v, -, -, -, input, link, -, n, r, -, hroot⟩ := hreads
  exact hroot.not_reroutes

theorem Carries.exists_root {cs : List Contribution} {x : String} (hx : sheet.Carries cs link x) :
    ∃ u s, sheet.Root link u s ∧ ∃ c ∈ cs, c.node = u.1 ∧ c.targets.names[s]? = some x := by
  obtain ⟨n, r, hfrom, u, s, hroot, hbears⟩ := hx
  exact ⟨u, s, ⟨n, r, hfrom, hroot⟩, hbears⟩

include h in
theorem Carries.of_root {cs : List Contribution} {x : String} (hx : sheet.Carries cs link x)
    (hroot : sheet.Root link u s) :
    ∃ c ∈ cs, c.node = u.1 ∧ c.targets.names[s]? = some x := by
  obtain ⟨u', s', hroot', hbears⟩ := hx.exists_root
  obtain ⟨rfl, rfl⟩ := Root.unique h hroot hroot'
  exact hbears

end Roots

/-! ## Statements in force -/

namespace Statement

variable {sheet : Sheet} {nodesInfo node : Value} {earlier : List Contribution} {c : Contribution}
  (hc : sheet.Statement nodesInfo earlier node c)

include hc

theorem sets_eq : c.sets = c.targets.names := by
  obtain ⟨callee, hstatement, -⟩ := hc.call
  rw [Contribution.sets, hstatement]
  rfl

theorem isActive {x : String} (hx : x ∈ c.targets.names) (hne : x ≠ "_") : c.isActive = true := by
  obtain ⟨callee, hstatement, hline⟩ := hc.call
  have htext : c.line ≠ "" := by
    rw [hline]
    intro hempty
    have hchars := congrArg String.toList hempty
    simp [Workflow.Statement.text, String.toList_append] at hchars
  unfold Contribution.isActive
  rw [hstatement, any_some, Targets.call, hc.used x hx hne]
  simp [htext]

end Statement

theorem Contributes.statement {sheet : Sheet} {nodesInfo : Value} {earlier : List Contribution}
    {n : Value × Value} {c : Contribution} (hc : sheet.Contributes nodesInfo earlier n c)
    (hactive : c.isActive = true) : ¬ Reroutes n.2 ∧ sheet.Statement nodesInfo earlier n.2 c := by
  have hnot : ¬ Reroutes n.2 := by
    intro hreroute
    rw [Contribution.isActive, hc.reroute hreroute] at hactive
    cases hactive
  exact ⟨hnot, hc.ordinary hnot⟩

/-- The roots that later statements read have been assigned last of all with their variables. -/
def Intact (sheet : Sheet) (nodesInfo : Value) (earlier later : List Contribution) : Prop :=
  ∀ e ∈ earlier, ∀ u s x, e.node = u.1 → e.targets.names[s]? = some x → x ≠ "_" →
    (∃ c ∈ later, ∃ p, sheet.ReadsAt nodesInfo c p u s) → LastAssigned earlier x u.1 s

theorem Intact.taken {sheet : Sheet} {nodesInfo : Value} {earlier later : List Contribution}
    {c : Contribution} {w : Value × Value} (h : sheet.Intact nodesInfo earlier (c :: later))
    (hw : w ∈ sheet.nodes) (hc : sheet.Contributes nodesInfo earlier w c) (hnot : ¬ Reroutes w.2)
    {r : Nat} {x : String} (hr : c.targets.names[r]? = some x) (hne : x ≠ "_") :
    ((∀ e ∈ earlier, x ∉ e.targets.names) ∧ ∀ r' < r, c.targets.names[r']? ≠ some x) ∨
      ∃ u s, u ∈ sheet.nodes ∧ sheet.Overwrites nodesInfo w r u s ∧
        (∃ e ∈ earlier, x ∈ e.targets.names) ∧ LastAssigned earlier x u.1 s := by
  rcases (hc.ordinary hnot).origin r x hr hne with ⟨p, input, link, htakes, hp, hcarries⟩ | hfresh
  · obtain ⟨u, s, hroot, e, he, hid, hx⟩ := hcarries.exists_root
    refine .inr ⟨u, s, hroot.mem, ⟨p, input, link, htakes, hp, hroot⟩,
      ⟨e, he, mem_of_getElem? hx⟩, ?_⟩
    exact h e he u s x hid hx hne
      ⟨c, mem_cons_self, p, w, hw, hc.node.symm, hnot, input, link, hp, hroot⟩
  · exact .inl hfresh

namespace Statements

variable {sheet : Sheet} {nodesInfo : Value} {cs earlier later : List Contribution} {c : Contribution}
  (h : sheet.Sound nodesInfo) (hcs : sheet.Statements nodesInfo cs) {u : Value × Value} {s : Nat}

include h hcs

theorem statement_of_mem (hsplit : cs = earlier ++ c :: later) {n : Value × Value}
    (hn : n ∈ sheet.nodes) (hid : n.1 = c.node) (hnot : ¬ Reroutes n.2) :
    sheet.Statement nodesInfo earlier n.2 c := by
  obtain ⟨m, hm, hc⟩ := hcs.contributes earlier c later hsplit
  obtain rfl := h.eq_of_id hm hn (hc.node.symm.trans hid.symm)
  exact hc.ordinary hnot

theorem exists_reads (hsplit : cs = earlier ++ c :: later) {p : Nat}
    (hreads : sheet.ReadsAt nodesInfo c p u s) :
    ∃ x, x ≠ "_" ∧ c.targets.arguments[p]?.bind Argument.name? = some x ∧
      ∃ e ∈ earlier, e.node = u.1 ∧ e.targets.names[s]? = some x := by
  obtain ⟨v, hv, hid, hnot, input, link, hp, hroot⟩ := hreads
  obtain ⟨x, hne, hx, hcarries⟩ :=
    (hcs.statement_of_mem h hsplit hv hid hnot).reads p input link hp
  exact ⟨x, hne, hx, hcarries.of_root h hroot⟩

theorem exists_overwritten (hsplit : cs = earlier ++ c :: later) {w : Value × Value} (hw : w ∈ sheet.nodes)
    (hid : w.1 = c.node) (hnot : ¬ Reroutes w.2) {t : Nat} (hover : sheet.Overwrites nodesInfo w t u s) :
    ∃ x, x ≠ "_" ∧ c.targets.names[t]? = some x ∧
      ∃ e ∈ earlier, e.node = u.1 ∧ e.targets.names[s]? = some x := by
  obtain ⟨p, input, link, htakes, hp, hroot⟩ := hover
  obtain ⟨x, hne, hx, hcarries⟩ :=
    (hcs.statement_of_mem h hsplit hw hid hnot).gives t p input link htakes hp
  exact ⟨x, hne, hx, hcarries.of_root h hroot⟩

theorem intact_append (hsplit : cs = earlier ++ c :: later)
    (hundisturbed : sheet.Undisturbed nodesInfo cs)
    (hintact : sheet.Intact nodesInfo earlier (c :: later)) :
    sheet.Intact nodesInfo (earlier ++ [c]) later := by
  rintro e he u s x hid hx hne ⟨c', hc', q, hreads⟩
  obtain ⟨w, hw, hc⟩ := hcs.contributes earlier c later hsplit
  have hwid := hc.node.symm
  rcases mem_append.mp he with hold | hnew
  · -- a root before keeps its variable, since a later argument still reads it
    have hkept := hintact e hold u s x hid hx hne ⟨c', mem_cons_of_mem _ hc', q, hreads⟩
    refine hkept.append_singleton fun hactive hset => ?_
    obtain ⟨hnot, hstatement⟩ := hc.statement hactive
    rw [hstatement.sets_eq] at hset
    obtain ⟨r, hr⟩ := mem_iff_getElem?.mp hset
    rcases hintact.taken hw hc hnot hr hne with ⟨hfresh, -⟩ | ⟨u', s', hu', hover, -, hlast⟩
    · exact hfresh e hold (mem_of_getElem? hx)
    · obtain ⟨huid, rfl⟩ := hlast.unique hkept
      obtain rfl := h.eq_of_id hu' hreads.mem huid
      exact (hundisturbed earlier c later hsplit w hw hwid hnot r u' s' hover c' hc' q).1 hreads
  · -- the outputs of the new statement: one that is read has no variable that comes again
    obtain rfl := mem_singleton.mp hnew
    obtain rfl := h.eq_of_id hw hreads.mem (hwid.trans hid)
    have hnot := hreads.not_reroutes
    have hstatement := hc.ordinary hnot
    have hset := hstatement.sets_eq
    refine hid ▸ LastAssigned.last earlier (hstatement.isActive (mem_of_getElem? hx) hne)
      (hset ▸ hx) fun hagain => ?_
    rw [hset] at hagain
    obtain ⟨r, hr⟩ := mem_iff_getElem?.mp hagain
    rw [getElem?_drop] at hr
    rcases hintact.taken hw hc hnot hr hne with ⟨-, hfirst⟩ | ⟨u', s', hu', hover', hmem, hlast'⟩
    · exact hfirst s (by omega) hx
    · rcases hintact.taken hw hc hnot hx hne with ⟨hfresh, -⟩ | ⟨u, s', hu, hover, -, hlast⟩
      · obtain ⟨e', he', hxe'⟩ := hmem
        exact hfresh e' he' hxe'
      · obtain ⟨huid, rfl⟩ := hlast.unique hlast'
        obtain rfl := h.eq_of_id hu hu' huid
        exact (hundisturbed earlier e later hsplit w hw hwid hnot s u s' hover c' hc' q).2 _
          (by omega) hover' hreads

theorem intact (hundisturbed : sheet.Undisturbed nodesInfo cs) {rest : List Contribution}
    (hsplit : cs = earlier ++ rest) : sheet.Intact nodesInfo earlier rest := by
  induction earlier using List.reverseRecOn generalizing rest with
  | nil => exact fun e he => absurd he not_mem_nil
  | append_singleton earlier c ih =>
    rw [append_assoc] at hsplit
    exact hcs.intact_append h hsplit hundisturbed (ih hsplit)

theorem transparent_of_undisturbed (hundisturbed : sheet.Undisturbed nodesInfo cs) :
    sheet.Transparent nodesInfo cs := by
  intro earlier c later hsplit p u s hreads
  obtain ⟨x, hne, hx, e, he, hid, hxe⟩ := hcs.exists_reads h hsplit hreads
  exact ⟨x, hx, hcs.intact h hundisturbed hsplit e he u s x hid hxe hne
    ⟨c, mem_cons_self, p, hreads⟩⟩

theorem of_transparent (htransparent : sheet.Transparent nodesInfo cs) (hsplit : cs = earlier ++ c :: later)
    {p : Nat} (hreads : sheet.ReadsAt nodesInfo c p u s) {front back : List Contribution} {e : Contribution}
    (hearlier : earlier = front ++ e :: back) (hid : e.node = u.1) {x : String}
    (hx : e.targets.names[s]? = some x) :
    x ∉ e.targets.names.drop (s + 1) ∧ ∀ b ∈ back, b.isActive = true → x ∉ b.sets := by
  obtain ⟨y, -, hlast⟩ := htransparent earlier c later hsplit p u s hreads
  have hnodup : (earlier.map Contribution.node).Nodup := by
    have hnodup := hcs.nodup
    rw [hsplit, map_append] at hnodup
    exact (nodup_append.mp hnodup).1
  have hset : e.sets = e.targets.names := by
    have hsplit' : cs = front ++ e :: (back ++ c :: later) := by simp [hsplit, hearlier]
    exact (hcs.statement_of_mem h hsplit' hreads.mem hid.symm hreads.not_reroutes).sets_eq
  obtain ⟨hslot, hrest, hback⟩ := hlast.of_split hnodup hearlier hid
  rw [hset] at hslot hrest
  obtain rfl := some.inj (hslot.symm.trans hx)
  exact ⟨hrest, hback⟩

theorem undisturbed_of_transparent (htransparent : sheet.Transparent nodesInfo cs) :
    sheet.Undisturbed nodesInfo cs := by
  intro earlier c later hsplit w hw hwid hnot t u s hover c' hc' p
  obtain ⟨between, rest, rfl⟩ := append_of_mem hc'
  have hsplit' : cs = (earlier ++ c :: between) ++ c' :: rest := by simp [hsplit]
  have hstatement := hcs.statement_of_mem h hsplit hw hwid hnot
  obtain ⟨x, hne, hx, e, he, hid, hxe⟩ := hcs.exists_overwritten h hsplit hw hwid hnot hover
  refine ⟨fun hreads => ?_, fun r hr hover' hreads => ?_⟩
  · -- the statement that takes over the variable stands between the root and the argument
    obtain ⟨front, back, rfl⟩ := append_of_mem he
    have hbefore : (front ++ e :: back) ++ c :: between = front ++ e :: (back ++ c :: between) := by
      simp
    obtain ⟨-, hback⟩ := hcs.of_transparent h htransparent hsplit' hreads hbefore hid hxe
    refine hback c (by simp) (hstatement.isActive (mem_of_getElem? hx) hne) ?_
    exact hstatement.sets_eq ▸ mem_of_getElem? hx
  · -- the variable of the first output comes again in the same statement
    obtain ⟨y, -, hy, e', he', hid', hye'⟩ :=
      hcs.exists_overwritten h hsplit hw hwid hnot hover'
    obtain rfl : e = e' := inj_on_of_nodup_map hcs.nodup (by simp [hsplit, he])
      (by simp [hsplit, he']) (hid.trans hid'.symm)
    obtain rfl := some.inj (hxe.symm.trans hye')
    obtain ⟨hrest, -⟩ := hcs.of_transparent h htransparent hsplit' hreads rfl hwid.symm hx
    exact hrest (mem_drop_succ hy hr)

theorem transparent_iff_undisturbed :
    sheet.Transparent nodesInfo cs ↔ sheet.Undisturbed nodesInfo cs :=
  ⟨hcs.undisturbed_of_transparent h, hcs.transparent_of_undisturbed h⟩

end Statements

end Sheet

/-! ## Scripts -/

namespace Transpiler

variable {t : Transpiler} {ends : Value} {log : String}

theorem fault_of_orFault {α : Type} {fault : Option Fault} {result : Except Fault α} {a : α}
    (h : orFault fault result = .ok a) : fault = none := by
  cases fault with
  | none => rfl
  | some e => cases result <;> cases h

section Ends

variable {ends' : Option Value} (hvertices : ∀ x ∈ t.graph.vertices, x.id.IsId)
  (hends : ∀ items, ends.iterate = .ok items → ∀ v ∈ items, v.IsId)
include hends

theorem isId_of_resolveEnds {e : Value} (h : t.resolveEnds ends = .ok (log, some e)) {items : List Value} (hitems : e.iterate = .ok items) :
    ∀ v ∈ items, v.IsId := by
  unfold resolveEnds at h
  split at h
  · cases h
  obtain ⟨length, -, h⟩ := ok_of_bind h
  split at h
  · cases h
    exact hends items hitems
  obtain ⟨first, -, h⟩ := ok_of_bind h
  obtain ⟨known, -, h⟩ := ok_of_bind h
  split at h
  · cases h
    exact hends items hitems
  have hmap {α : Type} {given : List α} {f : α → Value} (hlist : e = .list (given.map f))
      (hf : ∀ a, (f a).IsId) : ∀ v ∈ items, v.IsId := by
    subst hlist
    obtain rfl := Except.ok.inj hitems
    intro v hv
    obtain ⟨a, -, rfl⟩ := mem_map.mp hv
    exact hf a
  split at h
  · obtain ⟨given, -, h⟩ := ok_of_bind h
    split at h
    · cases h
      exact hmap rfl fun _ => trivial
    · cases h
    · cases h
  · obtain ⟨given, -, h⟩ := ok_of_bind h
    cases h
    exact hmap rfl fun _ => trivial
  · obtain ⟨given, -, h⟩ := ok_of_bind h
    cases h
    exact hmap rfl fun _ => trivial
  · cases h

variable (hresolve : t.resolveEnds ends = .ok (log, ends'))
include hvertices hresolve

theorem isId_of_endsOf {ids : List Value}
    (hids : endsOf t.graph ends' = .ok ids) : ∀ id ∈ ids, id.IsId := by
  cases ends' with
  | none =>
    intro id hid
    obtain ⟨v, hv, rfl⟩ := mem_map.mp ((perm_of_endNodes hids).subset hid)
    exact hvertices v (mem_of_mem_filter hv)
  | some ends' => exact isId_of_resolveEnds hends hresolve hids

theorem exists_endsOf (hfault : (order t.nodesInfo t.graph ends').2.fault = none) :
    ∃ ids, endsOf t.graph ends' = .ok ids ∧ ∀ id ∈ ids, id.IsId := by
  cases hids : endsOf t.graph ends' with
  | ok ids => exact ⟨ids, rfl, isId_of_endsOf hvertices hends hresolve hids⟩
  | error e =>
    rw [order_of_endsOf_error hids] at hfault
    cases hfault

end Ends

theorem statements_contributionsFor {sheet : Sheet} {nodesInfo : Value} (h : sheet.Sound nodesInfo)
    (hends : ∀ items, ends.iterate = .ok items → ∀ v ∈ items, v.IsId) {cs : List Contribution}
    (hcs : contributionsFor ⟨nodesInfo, sheet.graph⟩ ends = .ok cs) :
    sheet.Statements nodesInfo cs := by
  obtain ⟨⟨log, ends'⟩, hresolve, hcontributions⟩ := ok_of_bind hcs
  have hrun := ok_of_orFault hcontributions
  have hfault := fault_of_orFault hcontributions
  obtain ⟨ids, hids, hisId⟩ := exists_endsOf h.isId_vertex hends hresolve hfault
  simp only [order_of_endsOf hids] at hrun hfault
  exact (Sheet.statements_of_run h (Sheet.sound_order h hisId hfault).1 (.start h) (Prod.ext hrun rfl)).2

/-- The script of a workflow whose nodes are ordinary or only pass on a value: the former have a
statement each, whose arguments are the variables of their roots. Every argument has the value of
its root if and only if no root is read after its variable is taken over. -/
theorem script_transparent_iff_undisturbed {workflow nodesInfo document ends : Value}
    {standalone : Bool} {sheet : Sheet} {t : Transpiler} {text : String}
    (hdocument : documentOf workflow nodesInfo = .ok document) (hsheet : sheet.IsOf document)
    (h : sheet.WellFormed nodesInfo) (ht : (openWorkflow workflow nodesInfo).2 = .ok t)
    (hends : ∀ items, ends.iterate = .ok items → ∀ v ∈ items, v.IsId)
    (hscript : (t.script ends standalone).1.script = .ok text) :
    ∃ cs, t.contributionsFor ends = .ok cs ∧ text = textOf standalone cs ∧
      (∀ c ∈ cs, ∃ n ∈ sheet.nodes, Sheet.Leaves n c) ∧ sheet.Rooted nodesInfo cs ∧
      (sheet.Transparent nodesInfo cs ↔ sheet.Undisturbed nodesInfo cs) := by
  replace h := h.sound
  obtain rfl : t = ⟨nodesInfo, sheet.graph⟩ := by
    unfold openWorkflow versionedDocument at ht
    rw [hdocument, ok_bind] at ht
    cases hversion : document.field "version" with
    | error e =>
      rw [hversion] at ht
      cases ht
    | ok version =>
      rw [hversion, ok_bind] at ht
      dsimp only at ht
      rw [h.ofDocument_eq hsheet] at ht
      exact (Except.ok.inj ht).symm
  rw [script_eq] at hscript
  obtain ⟨cs, hcs, rfl⟩ := ok_of_map hscript
  have hstatements := statements_contributionsFor h hends hcs
  refine ⟨cs, hcs, rfl, fun c hc => ?_, fun earlier c later hsplit p u s hreads =>
    hstatements.exists_reads h hsplit hreads, hstatements.transparent_iff_undisturbed h⟩
  obtain ⟨earlier, later, hsplit⟩ := List.append_of_mem hc
  obtain ⟨n, hn, hcontributes⟩ := hstatements.contributes earlier c later hsplit
  exact ⟨n, hn, hcontributes.node, hcontributes.reroute, fun hnot =>
    (hcontributes.ordinary hnot).call⟩

def blurTypes : Value :=
  let latent : Value := .list [.str "LATENT"]
  let type (inputs : List String) (outputs : Value) : Value :=
    .dict [("input", .dict [("required", .dict (inputs.map fun name => (name, latent)))]),
      ("output", outputs), ("output_name", outputs)]
  .dict [("Empty", type [] latent), ("Blur", type ["samples"] latent),
    ("Join", type ["a", "b"] (.list []))]

def linkedInput (name type : String) (link : Int) : Value :=
  .dict [("name", .str name), ("type", .str type), ("link", .int link)]

def latentOutput (links : List Value) : Value :=
  .dict [("name", .str "LATENT"), ("type", .str "LATENT"), ("links", .list links),
    ("slot_index", .int 0)]

def documentNode (id : Int) (type : String) (inputs outputs : List Value) : Value :=
  .dict [("id", .int id), ("type", .str type), ("pos", .list [.int id, .int 0]),
    ("mode", .int 0), ("inputs", .list inputs), ("outputs", .list outputs)]

def emptyNode : Value × Value :=
  (.int 1, documentNode 1 "Empty" [] [latentOutput [.int 1, .int 2]])

def passingNode : Value × Value :=
  (.int 2, documentNode 2 "Reroute" [linkedInput "" "*" 1] [latentOutput [.int 3]])

def blurNode : Value × Value :=
  (.int 3, documentNode 3 "Blur" [linkedInput "samples" "LATENT" 3] [latentOutput [.int 4]])

def joinNode : Value × Value :=
  (.int 4, documentNode 4 "Join" [linkedInput "a" "LATENT" 4, linkedInput "b" "LATENT" 2] [])

def passedNodes : List (Value × Value) := [emptyNode, passingNode, blurNode, joinNode]

def numberOf : Value → Int
  | .int n => n
  | _ => 0

def listed (n : Value × Value) : Value × Value := (n.1, n.2.asRecords)

def latentEdge (key source target slot : Int) : Edge :=
  ⟨.int source, .int target, .int key, .int 0, .int slot, .str "LATENT"⟩

def passedSheet : Sheet where
  nodes := passedNodes.map listed
  edges := [latentEdge 1 1 2 0, latentEdge 2 1 4 1, latentEdge 3 2 3 0, latentEdge 4 3 4 0]

def passedWorkflow : Value :=
  .dict [("nodes", .list (passedNodes.map Prod.snd)),
    ("links", .list (passedSheet.edges.map Edge.row)), ("version", version)]

section Documents

variable (id : Int) (type : String) {inputs outputs : List Value}

theorem inputsOf_documentNode : inputsOf (documentNode id type inputs outputs).asRecords =
    inputs.map Value.asRecords :=
  Value.itemsAsRecords_eq_map inputs

theorem isNode_documentNode (hnames : (inputs.map fun i => nameOf? i.asRecords).Nodup)
    (houtputs : outputs = [] ∨ ∃ links, outputs = [latentOutput links]) :
    IsNode (documentNode id type inputs outputs).asRecords := by
  refine ⟨⟨_, rfl⟩, rfl, .inr ⟨_, rfl⟩, fun i hi j hj _ _ hname => ?_, fun s o ho => ?_,
    fun o ho => ?_⟩
  · rw [inputsOf_documentNode] at hi hj
    obtain ⟨i', hi', rfl⟩ := mem_map.mp hi
    obtain ⟨j', hj', rfl⟩ := mem_map.mp hj
    rw [inj_on_of_nodup_map hnames hi' hj' hname]
  · rcases houtputs with rfl | ⟨links, rfl⟩
    · cases ho
    · change [(latentOutput links).asRecords][s]? = some o at ho
      rw [getElem?_singleton] at ho
      split at ho
      next hs =>
        cases ho
        subst hs
        rfl
      · cases ho
  · rcases houtputs with rfl | ⟨links, rfl⟩
    · cases ho
    · obtain rfl : o = (latentOutput links).asRecords := mem_singleton.mp ho
      exact .inr ⟨_, rfl⟩

theorem isOrdinaryNode_documentNode {nodesInfo : Value} (htype : IsOrdinary type)
    (hinputs : ∀ i ∈ inputs, (typeOf i.asRecords == .str "*") = false)
    (houtputs : outputs = [] ∨ ∃ links, outputs = [latentOutput links]) :
    IsOrdinaryNode nodesInfo (documentNode id type inputs outputs).asRecords := by
  refine ⟨⟨type, rfl, htype⟩, fun i hi => ?_, fun o ho => ?_, fun o ho _ name hname => ?_,
    fun arguments harguments => ?_⟩
  · rw [inputsOf_documentNode] at hi
    obtain ⟨i', hi', rfl⟩ := mem_map.mp hi
    exact hinputs i' hi'
  · rcases houtputs with rfl | ⟨links, rfl⟩
    · cases ho
    · obtain rfl : o = (latentOutput links).asRecords := mem_singleton.mp ho
      rfl
  · rcases houtputs with rfl | ⟨links, rfl⟩
    · cases ho
    · obtain rfl : o = (latentOutput links).asRecords := mem_singleton.mp ho
      obtain rfl : "LATENT" = name := Except.ok.inj hname
      decide +kernel
  · obtain rfl : [] = arguments := Except.ok.inj harguments
    exact fun entry hentry => absurd hentry not_mem_nil

theorem not_reroutes_documentNode (htype : type ∉ rerouteTypes) :
    ¬ Reroutes (documentNode id type inputs outputs).asRecords :=
  fun ⟨_, hmem, hother⟩ => htype (Value.str.inj hother ▸ hmem)

end Documents

theorem forall_passedSheet {P : Value × Value → Prop} :
    (∀ n ∈ passedSheet.nodes, P n) ↔
      P (listed emptyNode) ∧ P (listed passingNode) ∧ P (listed blurNode) ∧ P (listed joinNode) := by
  simp [passedSheet, passedNodes]

theorem wellFormed_passedSheet : passedSheet.WellFormed blurTypes where
  ids := forall_passedSheet.mpr ⟨trivial, trivial, trivial, trivial⟩
  ids_nodup := by simp [passedSheet, passedNodes, listed, emptyNode, passingNode, blurNode, joinNode]
  keys := by simp [passedSheet, latentEdge, Value.IsId]
  keys_nodup := by simp [passedSheet, latentEdge]
  nodes := forall_passedSheet.mpr
    ⟨⟨isNode_documentNode _ _ (by decide) (.inr ⟨_, rfl⟩), rfl⟩,
      ⟨isNode_documentNode _ _ (by decide) (.inr ⟨_, rfl⟩), rfl⟩,
      ⟨isNode_documentNode _ _ (by decide) (.inr ⟨_, rfl⟩), rfl⟩,
      isNode_documentNode _ _ (by decide) (.inl rfl), rfl⟩
  reroutes := forall_passedSheet.mpr
    ⟨fun h => absurd h (not_reroutes_documentNode _ _ (by decide)),
      fun _ => ⟨⟨_, .int 1, rfl, rfl, rfl, rfl⟩, _, rfl⟩,
      fun h => absurd h (not_reroutes_documentNode _ _ (by decide)),
      fun h => absurd h (not_reroutes_documentNode _ _ (by decide))⟩
  ordinary := forall_passedSheet.mpr
    ⟨fun _ => isOrdinaryNode_documentNode _ _ (by decide) (by decide) (.inr ⟨_, rfl⟩),
      fun hnot => absurd ⟨"Reroute", by decide, rfl⟩ hnot,
      fun _ => isOrdinaryNode_documentNode _ _ (by decide) (by decide) (.inr ⟨_, rfl⟩),
      fun _ => isOrdinaryNode_documentNode _ _ (by decide) (by decide) (.inl rfl)⟩
  target := by
    rw [forall_passedSheet]
    refine ⟨fun i hi => ?_, fun i hi link hlink => ?_, fun i hi link hlink => ?_, fun i hi link hlink => ?_⟩
    · cases hi
    · obtain rfl := mem_singleton.mp hi
      exact ⟨_, .head _, some.inj hlink, rfl⟩
    · obtain rfl := mem_singleton.mp hi
      exact ⟨_, .tail _ (.tail _ (.head _)), some.inj hlink, rfl⟩
    · rcases mem_pair.mp hi with rfl | rfl
      · exact ⟨_, .tail _ (.tail _ (.tail _ (.head _))), some.inj hlink, rfl⟩
      · exact ⟨_, .tail _ (.head _), some.inj hlink, rfl⟩
  source := by
    simp only [passedSheet, forall_mem_cons, not_mem_nil, false_imp_iff, implies_true,
      and_true]
    exact ⟨⟨_, .head _, rfl, 0, _, rfl, rfl, .head _⟩,
      ⟨_, .head _, rfl, 0, _, rfl, rfl, .tail _ (.head _)⟩,
      ⟨_, .tail _ (.head _), rfl, 0, _, rfl, rfl, .head _⟩,
      _, .tail _ (.tail _ (.head _)), rfl, 0, _, rfl, rfl, .head _⟩
  ends := by
    simp [passedSheet, latentEdge, passedNodes, listed, emptyNode, passingNode, blurNode, joinNode]
  acyclic x hcycle := by
    have hlater : passedSheet.Feeds ≤ Function.onFun (· < ·) numberOf := by
      rintro x y ⟨e, he, rfl, rfl⟩
      simp only [passedSheet, mem_cons, not_mem_nil, or_false] at he
      rcases he with rfl | rfl | rfl | rfl <;> decide
    have hloop := hcycle.lift numberOf hlater
    rw [Relation.transGen_eq_self] at hloop
    exact Int.lt_irrefl _ hloop

theorem not_undisturbed_passedSheet {cs : List Contribution}
    (hcs : cs.map Contribution.node = [.int 1, .int 2, .int 3, .int 4]) :
    ¬ passedSheet.Undisturbed blurTypes cs := by
  obtain ⟨c₁, rest, rfl, -, hrest⟩ := map_eq_cons_iff.mp hcs
  obtain ⟨c₂, rest, rfl, -, hrest⟩ := map_eq_cons_iff.mp hrest
  obtain ⟨c₃, rest, rfl, hc₃, hrest⟩ := map_eq_cons_iff.mp hrest
  obtain ⟨c₄, rest, rfl, hc₄, -⟩ := map_eq_cons_iff.mp hrest
  have hsource : passedSheet.From (.int 3) (listed passingNode) 0 :=
    ⟨.tail _ (.head _), _, .tail _ (.tail _ (.head _)), rfl, rfl, rfl⟩
  have hroot : passedSheet.RootOf (listed emptyNode) 0 (listed emptyNode) 0 :=
    .ordinary (not_reroutes_documentNode _ _ (by decide))
  have hblurred : passedSheet.Root (.int 3) (listed emptyNode) 0 :=
    ⟨_, 0, hsource, .reroute ⟨"Reroute", by decide, rfl⟩ (.head _) rfl
      ⟨.head _, _, .head _, rfl, rfl, rfl⟩ hroot⟩
  have hjoined : passedSheet.Root (.int 2) (listed emptyNode) 0 :=
    ⟨_, 0, ⟨.head _, _, .tail _ (.head _), rfl, rfl, rfl⟩, hroot⟩
  have hblur : ArgumentAt blurTypes (listed blurNode).2 0
      (linkedInput "samples" "LATENT" 3).asRecords (.int 3) :=
    ⟨.head _, rfl, [some "samples"], "samples", rfl, rfl, rfl⟩
  have hjoin : ArgumentAt blurTypes (listed joinNode).2 1
      (linkedInput "b" "LATENT" 2).asRecords (.int 2) :=
    ⟨.tail _ (.head _), rfl, [some "a", some "b"], "b", rfl, rfl, rfl⟩
  have honly (q : Nat) (hq : IsTwin blurTypes (listed blurNode).2 (latentOutput [.int 4]).asRecords q) :
      q = 0 := by
    obtain ⟨input, link, ⟨-, -, names, name, hnames, hget, -⟩, -⟩ := hq
    obtain rfl : [some "samples"] = names := Except.ok.inj hnames
    have hlt := (List.getElem?_eq_some_iff.mp hget).1
    simpa using hlt
  have htakes : passedSheet.TakesOver blurTypes (listed blurNode).2 0 0 :=
    ⟨⟨_, rfl, cons_ne_nil _ _, ⟨_, _, hblur, rfl⟩, honly⟩,
      ⟨_, _, hblur, _, 0, _, hsource, rfl, rfl⟩, fun r hr => absurd hr (Nat.not_lt_zero r)⟩
  intro hundisturbed
  refine (hundisturbed [c₁, c₂] c₃ (c₄ :: rest) rfl (listed blurNode) (.tail _ (.tail _ (.head _)))
    hc₃.symm (not_reroutes_documentNode _ _ (by decide)) 0 _ 0 ⟨0, _, _, htakes, hblur, hblurred⟩ c₄
    mem_cons_self 1).1 ?_
  exact ⟨listed joinNode, .tail _ (.tail _ (.tail _ (.head _))), hc₄.symm,
    not_reroutes_documentNode _ _ (by decide), _, _, hjoin, hjoined⟩

/-- Two links leave the source, but only one the node that passes the latent on. So the blur takes
over the variable of the latent, and the sink gets the blurred latent twice. -/
theorem script_transparent_iff_undisturbed_passedWorkflow :
    passedSheet.WellFormed blurTypes ∧
    ∃ t cs, (openWorkflow passedWorkflow blurTypes).2 = .ok t ∧ t.contributionsFor .null = .ok cs ∧
      textOf false cs = "latent = Empty()\nlatent = Blur(latent)\nJoin(latent, latent)\n" ∧
      ¬ passedSheet.Transparent blurTypes cs := by
  have htext : ((openWorkflow passedWorkflow blurTypes).2 >>= fun t =>
      (t.script .null false).1.script).toOption =
        some "latent = Empty()\nlatent = Blur(latent)\nJoin(latent, latent)\n" := by
    decide +kernel
  have hnumbers : ((openWorkflow passedWorkflow blurTypes).2 >>= fun t =>
      t.contributionsFor .null).toOption.map (List.map fun c => numberOf c.node) =
        some [1, 2, 3, 4] := by
    decide +kernel
  have hnull : ∀ items, Value.null.iterate = .ok items → ∀ v ∈ items, v.IsId := by rintro items ⟨⟩
  obtain ⟨t, ht, hscript⟩ := ok_of_bind (toOption_eq_some_iff.mp htext)
  obtain ⟨cs, hcs, hlines, hleaves, -, hiff⟩ := script_transparent_iff_undisturbed rfl ⟨rfl, rfl⟩
    wellFormed_passedSheet ht hnull hscript
  have hnumber : ∀ n ∈ passedSheet.nodes, n.1 = .int (numberOf n.1) :=
    forall_passedSheet.mpr ⟨rfl, rfl, rfl, rfl⟩
  have hnodes : cs.map Contribution.node = (cs.map fun c => numberOf c.node).map .int := by
    rw [List.map_map]
    refine List.map_congr_left fun c hc => ?_
    obtain ⟨n, hn, hleft⟩ := hleaves c hc
    rw [Function.comp_apply, hleft.node]
    exact hnumber n hn
  rw [ht, ok_bind, hcs] at hnumbers
  rw [Option.some.inj hnumbers] at hnodes
  exact ⟨wellFormed_passedSheet, t, cs, ht, hcs, hlines.symm, fun htransparent =>
    not_undisturbed_passedSheet hnodes (hiff.mp htransparent)⟩

end Transpiler

end Flowscript.Workflow
