import Flowscript.Proofs.Real.Layer

/-!
# Calls of loaded nodes

The arguments of a call may be results of calls before it. Where the answers of those are alike, so
are the arguments, and without a cache the call is answered alike. With a cache, a call answers what
it would answer without, unless it has no prompt or there is a result under its prompt.
-/

namespace Flowscript

open List

open Value (blank mask mapValues)

/-! ## Calls -/

abbrev Answer := Except Fault Value

/-- An argument in a sequence of calls: any value, the only result of an earlier call, or one of
several. -/
inductive CallArgument where
  | value (v : Value)
  | result (call : Nat)
  | item (call index : Nat)

structure RealCall where
  node : String
  arguments : List CallArgument
  named : List (String × CallArgument)

def Value.isSeveral : Value → Bool
  | list items => items.any fun
    | wrapped _ _ => true
    | _ => false
  | _ => false

def Value.parts : Value → List Value
  | list items | tuple items => items
  | _ => []

def Answer.only : Answer → Answer
  | .ok v => if v.isSeveral then .error .unbound else .ok v
  | .error _ => .error .unbound

def Answer.part (index : Nat) : Answer → Answer
  | .ok v => match v.parts[index]? with
    | some part => .ok part
    | none => .error .unbound
  | .error _ => .error .unbound

def CallArgument.pick (answers : List Answer) : CallArgument → Answer
  | value v => .ok v
  | result call => (answers[call]?.getD (.error .unbound)).only
  | item call index => (answers[call]?.getD (.error .unbound)).part index

namespace RealCall

def resolve (answers : List Answer) (c : RealCall) :
    Except Fault (List Value × List (String × Value)) := do
  let arguments ← c.arguments.mapM (·.pick answers)
  let named ← c.named.mapM fun (k, a) => do .ok (k, ← a.pick answers)
  .ok (arguments, named)

def make (answers : List Answer) (c : RealCall) : RealM Value := do
  let (arguments, named) ← RealM.check (c.resolve answers)
  RealM.call (← RealM.node c.node) arguments named

def answer (answers : List Answer) (c : RealCall) (s : RealState) : Answer :=
  ((c.make answers).run s).1

end RealCall

/-! ## Arguments that are alike -/

abbrev Answer.Alike : Answer → Answer → Prop := Matching Eq Value.Alike

theorem Answer.Alike.refl (x : Answer) : x.Alike x :=
  Matching.refl (fun v => (rfl : v.maskResult = v.maskResult)) x

theorem Answer.Alike.trans {x y z : Answer} (h : x.Alike y) (h' : y.Alike z) : x.Alike z :=
  Matching.trans (fun u v w (huv : u.maskResult = v.maskResult) (hvw : v.maskResult = w.maskResult) =>
    (huv.trans hvw : u.maskResult = w.maskResult)) h h'

theorem Value.isSeveral_maskResult (v : Value) : v.maskResult.isSeveral = v.isSeveral := by
  cases v with
  | list items =>
    rw [maskResult, isSeveral, isSeveral, any_map]
    congr 1
    funext item
    cases item <;> rfl
  | _ => rfl

theorem Value.maskResult_of_not_isSeveral {v : Value} (h : v.isSeveral = false) :
    v.maskResult = mask v := by
  cases v with
  | list items =>
    rw [isSeveral, any_eq_false] at h
    refine congrArg list ((map_congr_left fun item hitem => ?_).trans (map_id items))
    have hwrapped := h item hitem
    cases item with
    | wrapped inner o => exact absurd rfl hwrapped
    | _ => rfl
  | _ => rfl

theorem Value.parts_maskResult (v : Value) : v.maskResult.parts.map mask = v.parts.map mask := by
  cases v with
  | list items =>
    rw [maskResult, parts, parts, map_map]
    exact map_congr_left fun item _ => mask_mask item
  | _ => rfl

variable {answers answers' : List Answer}

theorem Answer.only_matching {x y : Answer} (h : x.Alike y) :
    Matching Eq (fun v w => mask v = mask w) x.only y.only := by
  cases h with
  | error he => exact .error rfl
  | @ok v w hvw =>
    have hsame : v.isSeveral = w.isSeveral := by
      rw [← Value.isSeveral_maskResult, hvw, Value.isSeveral_maskResult]
    unfold only
    dsimp only
    rw [hsame]
    cases hw : w.isSeveral with
    | true => exact .error rfl
    | false =>
      refine .ok ?_
      rw [← Value.maskResult_of_not_isSeveral (hsame.trans hw), hvw, Value.maskResult_of_not_isSeveral hw]

theorem Answer.part_matching {x y : Answer} (h : x.Alike y) (index : Nat) :
    Matching Eq (fun v w => mask v = mask w) (x.part index) (y.part index) := by
  cases h with
  | error he => exact .error rfl
  | @ok v w hvw =>
    have hparts : v.parts.map mask = w.parts.map mask := by
      rw [← Value.parts_maskResult, hvw, Value.parts_maskResult]
    have hitem : v.parts[index]?.map mask = w.parts[index]?.map mask := by
      rw [← getElem?_map, hparts, getElem?_map]
    unfold part
    dsimp only
    cases hv : v.parts[index]? with
    | none =>
      rw [hv] at hitem
      rw [Option.map_eq_none_iff.mp hitem.symm]
      exact .error rfl
    | some item =>
      rw [hv] at hitem
      obtain ⟨item', hw, hmask⟩ := Option.map_eq_some_iff.mp hitem.symm
      rw [hw]
      exact .ok hmask.symm

theorem CallArgument.pick_matching (h : List.Forall₂ Answer.Alike answers answers')
    (a : CallArgument) :
    Matching Eq (fun v w => mask v = mask w) (a.pick answers) (a.pick answers') := by
  have hanswer (call : Nat) : Answer.Alike (answers[call]?.getD (.error .unbound))
      (answers'[call]?.getD (.error .unbound)) := by
    induction h generalizing call with
    | nil => exact .error rfl
    | cons hxy _ ih =>
      cases call with
      | zero => exact hxy
      | succ call => exact ih call
  cases a with
  | value v => exact .ok rfl
  | result call => exact Answer.only_matching (hanswer call)
  | item call index => exact Answer.part_matching (hanswer call) index

theorem RealCall.resolve_matching (h : List.Forall₂ Answer.Alike answers answers') (c : RealCall) :
    Matching Eq (fun p p' => p.1.map mask = p'.1.map mask ∧ mapValues mask p.2 = mapValues mask p'.2)
      (c.resolve answers) (c.resolve answers') := by
  have heq {α : Type} {f : α → α} {as bs : List α} (h : List.Forall₂ (fun a b => f a = f b) as bs) :
      as.map f = bs.map f :=
    List.forall₂_eq_eq_eq ▸ List.forall₂_map_left_iff.mpr (List.forall₂_map_right_iff.mpr h)
  unfold resolve
  refine (Matching.mapM c.arguments fun a => a.pick_matching h).bind
    fun arguments arguments' harguments => ?_
  have hnamed : Matching Eq
      (List.Forall₂ fun e e' : String × Value => (e.1, mask e.2) = (e'.1, mask e'.2))
      (c.named.mapM fun (k, a) => do .ok (k, ← a.pick answers))
      (c.named.mapM fun (k, a) => do .ok (k, ← a.pick answers')) :=
    Matching.mapM c.named fun (k, a) =>
      (a.pick_matching h).bind fun v w hvw => .ok (congrArg (Prod.mk k) hvw)
  exact hnamed.bind fun named named' hnamed => .ok ⟨heq harguments, heq hnamed⟩

/-! ## Calls in a workflow -/

namespace RealState

/-- Every node has a layer on a class of its own that does all that layers can do. -/
def Wraps (s : RealState) : Prop :=
  ∀ name n, Table.find? name s.nodes = some n →
    ∃ l creator, n.wrapper = some (.layered .plain l, creator) ∧ l.Full

def site (s : RealState) (name : String) : Except Fault (Layer × NodeClass) :=
  match Table.find? name s.nodes with
  | none => .error .wrongKind
  | some n => match Table.find? n.owner s.classes with
    | none => .error .missingKey
    | some c => match n.wrapper with
      | some (.layered .plain l, _) => .ok (l, c)
      | _ => .error .broken

structure Follows (base s : RealState) : Prop where
  nodes : s.nodes = base.nodes
  classes : s.classes = base.classes

structure Plainly (base s : RealState) : Prop extends Follows base s where
  noCache : s.NoCache

structure Within (base : RealState) (cache : Cache) (s : RealState) : Prop
    extends Follows base s where
  active : s.active = true
  workflow : s.workflow = some ⟨.shared, cache, []⟩

theorem Wraps.full {s : RealState} (hs : s.Wraps) {name : String} {l : Layer} {c : NodeClass}
    (h : s.site name = .ok (l, c)) : l.Full := by
  unfold site at h
  cases hn : Table.find? name s.nodes with
  | none => rw [hn] at h; cases h
  | some n =>
    obtain ⟨l', creator, hwrapper, hfull⟩ := hs name n hn
    simp only [hn, hwrapper] at h
    split at h
    · cases h
    · cases h
      exact hfull

variable {base s : RealState} {cache : Cache}

theorem Follows.site_eq (h : base.Follows s) (name : String) : s.site name = base.site name := by
  unfold site
  rw [h.nodes, h.classes]

theorem Follows.wraps (h : base.Follows s) (hbase : base.Wraps) : s.Wraps := by
  intro name n hn
  rw [h.nodes] at hn
  exact hbase name n hn

theorem Within.uncached (h : base.Within cache s) : base.Plainly s.uncached :=
  ⟨⟨h.nodes, h.classes⟩, s.noCache_uncached⟩

end RealState

namespace RealCall

variable {c : RealCall}

structure Aim where
  layer : Layer
  inner : NodeClass
  arguments : List Value
  named : List (String × Value)

def aim (answers : List Answer) (c : RealCall) (s : RealState) : Except Fault Aim := do
  let (arguments, named) ← c.resolve answers
  let (layer, inner) ← s.site c.node
  .ok ⟨layer, inner, arguments, named⟩

def ready (answers : List Answer) (c : RealCall) (s : RealState) : Except Fault RealM.Ready := do
  let t ← c.aim answers s
  ((RealM.prepareCall t.layer t.arguments t.named).run s).1

theorem run_make {s : RealState} (hs : s.Wraps) (answers : List Answer) (c : RealCall) :
    (c.make answers).run s = match c.aim answers s with
      | .error e => (.error e, s)
      | .ok t => (RealM.callLayer t.layer (.object t.inner) t.arguments t.named).run s := by
  unfold make aim
  cases c.resolve answers with
  | error e => rfl
  | ok p =>
    obtain ⟨arguments, named⟩ := p
    rw [ok_bind, RealState.site]
    change (RealM.node c.node >>= fun n => RealM.call n arguments named).run s = _
    unfold RealM.node
    rw [bind_assoc, run_bind_ok (run_get s)]
    cases hn : Table.find? c.node s.nodes with
    | none => rfl
    | some n =>
      obtain ⟨l, creator, hwrapper, -⟩ := hs c.node n hn
      simp only [pure_bind, hwrapper]
      unfold RealM.call RealM.classOf
      rw [bind_assoc, run_bind_ok (run_get s)]
      cases Table.find? n.owner s.classes with
      | none => rfl
      | some inner =>
        rw [hwrapper]
        rfl

theorem site_of_aim {s : RealState} {t : Aim} (h : c.aim answers s = .ok t) :
    s.site c.node = .ok (t.layer, t.inner) := by
  obtain ⟨p, -, h⟩ := ok_of_bind h
  obtain ⟨site, hsite, h⟩ := ok_of_bind h
  cases h
  exact hsite

theorem full_of_aim {s : RealState} (hs : s.Wraps) {t : Aim} (h : c.aim answers s = .ok t) : t.layer.Full :=
  hs.full (site_of_aim h)

variable {base s s' : RealState} {cache : Cache}

theorem plainly_make (hbase : base.Wraps) (hs : base.Plainly s) (answers : List Answer)
    (c : RealCall) : base.Plainly ((c.make answers).run s).2 := by
  rw [run_make (hs.wraps hbase)]
  cases haim : c.aim answers s with
  | error e => exact hs
  | ok t =>
    have hl := full_of_aim (hs.wraps hbase) haim
    dsimp only
    rw [RealM.run_callLayer_none hl hs.noCache]
    obtain ⟨result, session, runs, hrun⟩ := ((RealM.aside_prepareCall hl t.arguments t.named).bind
      fun r => RealM.aside_deliver hl (.object t.inner) r.outputs r.arguments r.named) s
    rw [show _ = _ from hrun s.workflow]
    exact ⟨⟨hs.nodes, hs.classes⟩, hs.noCache⟩

theorem recalled (hbase : base.Wraps) (hs : base.Within cache s) (answers : List Answer)
    (c : RealCall) :
    ∃ cache', base.Within cache' ((c.make answers).run s).2 ∧
      RealM.Recalled (c.ready answers s) (c.answer answers s.uncached) cache (c.answer answers s)
        cache' := by
  have haimed : c.aim answers s.uncached = c.aim answers s := rfl
  unfold answer ready
  rw [run_make (hs.wraps hbase), run_make (hs.uncached.wraps hbase), haimed]
  cases haim : c.aim answers s with
  | error e => exact ⟨cache, hs, .unready rfl rfl⟩
  | ok t =>
    have hl := full_of_aim (hs.wraps hbase) haim
    obtain ⟨session, runs, cache', hstate, hrecalled⟩ := RealM.recalled_callLayer hl hs.active
      hs.workflow (.object t.inner) t.arguments t.named
    refine ⟨cache', ?_, hrecalled⟩
    dsimp only
    rw [hstate]
    exact ⟨⟨hs.nodes, hs.classes⟩, hs.active, rfl⟩

theorem ready_uncached (hs : s.Wraps) (answers : List Answer) (c : RealCall) :
    c.ready answers s.uncached = c.ready answers s := by
  have haimed : c.aim answers s.uncached = c.aim answers s := rfl
  unfold ready
  rw [haimed]
  cases haim : c.aim answers s with
  | error e => rfl
  | ok t =>
    obtain ⟨result, session, runs, hrun⟩ :=
      RealM.aside_prepareCall (full_of_aim hs haim) t.arguments t.named s
    have hcached := congrArg Prod.fst (hrun s.workflow)
    have huncached := congrArg Prod.fst (hrun (some ⟨.none, [], []⟩))
    exact huncached.trans hcached.symm

/-! ## What a method is handed -/

def handed (answers : List Answer) (c : RealCall) (s : RealState) :
    Except Fault (List (String × Value) × Bool) :=
  (c.ready answers s).map RealM.Ready.handed

structure Aim.Alike (t t' : Aim) : Prop where
  layer : t.layer = t'.layer
  inner : t.inner = t'.inner
  arguments : t.arguments.map mask = t'.arguments.map mask
  named : mapValues mask t.named = mapValues mask t'.named

theorem aim_matching (hs : base.Follows s) (hs' : base.Follows s')
    (hanswers : List.Forall₂ Answer.Alike answers answers') (c : RealCall) :
    Matching Eq Aim.Alike (c.aim answers s) (c.aim answers' s') := by
  unfold aim
  rw [hs.site_eq, hs'.site_eq]
  refine (c.resolve_matching hanswers).bind fun p p' hp => ?_
  refine (Matching.refl (fun _ => rfl) (base.site c.node)).bind fun t t' ht => ?_
  exact .ok ⟨congrArg Prod.fst ht, congrArg Prod.snd ht, hp.1, hp.2⟩

theorem handed_eq (hbase : base.Wraps) (hs : base.Follows s) (hs' : base.Follows s')
    (hanswers : List.Forall₂ Answer.Alike answers answers')
    (hplain : ∀ l inner, base.site c.node = .ok (l, inner) → l.Plain) :
    c.handed answers s = c.handed answers' s' := by
  have hmatching := (aim_matching hs hs' hanswers c).strengthen fun t t' ht _ halike =>
    And.intro halike (And.intro (full_of_aim (hs.wraps hbase) ht)
      (hplain _ _ (hs.site_eq c.node ▸ site_of_aim ht)))
  unfold handed ready
  generalize c.aim answers s = x at hmatching
  generalize c.aim answers' s' = y at hmatching
  cases hmatching with
  | error he => rw [he]; rfl
  | @ok t t' h =>
    obtain ⟨l, inner, arguments, named⟩ := t
    obtain ⟨l', inner', arguments', named'⟩ := t'
    obtain ⟨⟨rfl, rfl, harguments, hnamed⟩, hl, hplain⟩ := h
    have hready := RealM.agree_prepareCall hl hplain harguments hnamed s s'
    rw [ok_bind, ok_bind]
    generalize ((RealM.prepareCall l arguments named).run s).1 = r at hready
    generalize ((RealM.prepareCall l arguments' named').run s').1 = r' at hready
    cases hready with
    | error he => rw [he]
    | ok h => exact congrArg Except.ok h

theorem answer_of_not_ready (hbase : base.Wraps) (hs : base.Plainly s) {e : Fault}
    (h : c.ready answers s = .error e) : c.answer answers s = .error e := by
  unfold answer
  unfold ready at h
  rw [run_make (hs.wraps hbase)]
  cases ht : c.aim answers s with
  | error e' =>
    rw [ht] at h
    cases h
    rfl
  | ok t =>
    rw [ht, ok_bind] at h
    dsimp only
    rw [RealM.run_callLayer_none (full_of_aim (hs.wraps hbase) ht) hs.noCache,
      run_bind_error (Prod.ext h rfl)]

theorem answer_of_ready (hbase : base.Wraps) (hs : base.Plainly s) {r : RealM.Ready}
    (hr : c.ready answers s = .ok r) :
    ∃ l inner s₁, base.site c.node = .ok (l, inner) ∧ l.Full ∧ l.Stand r.outputs r.outputs ∧
      c.answer answers s =
        ((RealM.deliver l (.object inner) r.outputs [] r.named).run s₁).1 := by
  obtain ⟨t, ht, hready⟩ := ok_of_bind hr
  have hl := full_of_aim (hs.wraps hbase) ht
  obtain ⟨harguments, houtputs⟩ := RealM.of_prepareCall hl hready
  refine ⟨t.layer, t.inner, ((RealM.prepareCall t.layer t.arguments t.named).run s).2,
    hs.site_eq c.node ▸ site_of_aim ht, hl, houtputs, ?_⟩
  unfold answer
  rw [run_make (hs.wraps hbase), ht]
  dsimp only
  rw [RealM.run_callLayer_none hl hs.noCache, run_bind_ok (Prod.ext hready rfl), harguments]

theorem answer_alike_of_handed (hbase : base.Wraps) (hs : base.Plainly s) (hs' : base.Plainly s')
    {c' : RealCall} (hnode : c.node = c'.node) (h : c.handed answers s = c'.handed answers' s') :
    (c.answer answers s).Alike (c'.answer answers' s') := by
  have hmatching := Matching.of_map_eq h
  cases hr : c.ready answers s with
  | error e =>
    cases hr' : c'.ready answers' s' with
    | error e' =>
      rw [hr, hr'] at hmatching
      cases hmatching with
      | error he =>
        rw [answer_of_not_ready hbase hs hr, answer_of_not_ready hbase hs' hr']
        exact .error he
    | ok r' => rw [hr, hr'] at hmatching; cases hmatching
  | ok r =>
    cases hr' : c'.ready answers' s' with
    | error e' => rw [hr, hr'] at hmatching; cases hmatching
    | ok r' =>
      rw [hr, hr'] at hmatching
      obtain ⟨l, inner, s₁, hsite, hl, houtputs, hanswer⟩ := answer_of_ready hbase hs hr
      obtain ⟨l', inner', s₁', hsite', -, houtputs', hanswer'⟩ := answer_of_ready hbase hs' hr'
      rw [← hnode, hsite] at hsite'
      cases hsite'
      cases hmatching with
      | ok hsame =>
        obtain ⟨hnamed, hsome⟩ := Prod.mk.inj hsame
        rw [hanswer, hanswer', hnamed]
        exact RealM.agree_deliver hl (.object inner) (houtputs.of_isSome houtputs' hsome) _ _ _ _

end RealCall

/-! ## Sequences of calls -/

namespace RealState

/-- Makes calls in turn, whether those before succeed or fail: their answers, and the last state. -/
def perform (s : RealState) (calls : List RealCall) : List Answer × RealState :=
  calls.foldl (fun p c => (p.1 ++ [c.answer p.1 p.2], ((c.make p.1).run p.2).2)) ([], s)

theorem perform_concat (s : RealState) (calls : List RealCall) (c : RealCall) :
    s.perform (calls ++ [c]) =
      ((s.perform calls).1 ++ [c.answer (s.perform calls).1 (s.perform calls).2],
        ((c.make (s.perform calls).1).run (s.perform calls).2).2) := by
  simp [perform]

theorem forall₂_perform_iff {R : Answer → Answer → Prop} {s t : RealState} {calls : List RealCall} :
    List.Forall₂ R (s.perform calls).1 (t.perform calls).1 ↔
      ∀ earlier c later, calls = earlier ++ c :: later →
        R (c.answer (s.perform earlier).1 (s.perform earlier).2)
          (c.answer (t.perform earlier).1 (t.perform earlier).2) := by
  induction calls using List.reverseRecOn with
  | nil => exact ⟨fun _ earlier c later h => absurd h (by simp), fun _ => .nil⟩
  | append_singleton calls c ih =>
    have hconcat : List.Forall₂ R (s.perform (calls ++ [c])).1 (t.perform (calls ++ [c])).1 ↔
        List.Forall₂ R (s.perform calls).1 (t.perform calls).1 ∧
          R (c.answer (s.perform calls).1 (s.perform calls).2)
            (c.answer (t.perform calls).1 (t.perform calls).2) := by
      rw [perform_concat, perform_concat, ← List.forall₂_reverse_iff]
      simp only [reverse_concat, List.forall₂_cons, List.forall₂_reverse_iff]
      exact And.comm
    rw [hconcat, ih]
    constructor
    · rintro ⟨hcalls, hc⟩ earlier c' later hsplit
      induction later using List.reverseRecOn with
      | nil =>
        obtain ⟨rfl, rfl⟩ := append_singleton_inj.mp hsplit
        exact hc
      | append_singleton later c'' _ =>
        rw [← cons_append, ← append_assoc] at hsplit
        exact hcalls earlier c' later (append_singleton_inj.mp hsplit).1
    · intro h
      exact ⟨fun earlier c' later hsplit => h earlier c' (later ++ [c]) (by simp [hsplit]),
        h calls c [] rfl⟩

theorem plainly_perform {base s : RealState} (hbase : base.Wraps) (hs : base.Plainly s)
    (calls : List RealCall) : base.Plainly (s.perform calls).2 := by
  induction calls using List.reverseRecOn with
  | nil => exact hs
  | append_singleton calls c ih =>
    rw [perform_concat]
    exact RealCall.plainly_make hbase ih _ c

end RealState

end Flowscript
