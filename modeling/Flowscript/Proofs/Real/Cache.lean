import Flowscript.Proofs.Real.Load

/-!
# Sequences of calls with a cache

The same calls are made in a workflow with a cache and in one without, where the arguments of a call
may be results of earlier ones. The cache answers a call if the call has no prompt, with a fault, and
if there is a result under its prompt. So the cache cannot be noticed if and only if what it answers
is what the call answers in the workflow without, and calls that it does not answer are not led
astray by their arguments.

That is the case if no hidden input asks for the prompt, every call has a prompt, and calls with the
same prompt are calls of the same node with the same arguments. A call that is not tracked has no
prompt: it fails with a cache, and may succeed without.
-/

namespace Flowscript

open List Option

def Value.bareResult : Value → Value
  | list items => list (items.map RealM.unwrap)
  | v => RealM.unwrap v

abbrev Answer.Same : Answer → Answer → Prop := Matching Eq fun v w => v.bareResult = w.bareResult

theorem Value.bareResult_maskResult (v : Value) : v.maskResult.bareResult = v.bareResult := by
  cases v with
  | list items =>
    rw [maskResult, bareResult, bareResult, List.map_map]
    exact congrArg list (map_congr_left fun item _ => unwrap_mask item)
  | _ => rfl

theorem Answer.Alike.same {x y : Answer} (h : x.Alike y) : x.Same y :=
  h.mono (fun _ _ => id) fun v w hvw => by
    rw [← Value.bareResult_maskResult v, hvw, Value.bareResult_maskResult]

theorem Answer.map_isOk_eq {as bs : List Answer} (h : List.Forall₂ Answer.Same as bs) :
    as.map Except.isOk = bs.map Except.isOk := by
  induction h with
  | nil => rfl
  | cons hab _ ih =>
    rw [map_cons, map_cons, ih]
    cases hab <;> rfl

/-- What a cache answers to a call that is ready: a fault if the call has no prompt, or the result
under its prompt. -/
def RealM.Ready.recollect (cache : Cache) (r : RealM.Ready) : Option Answer :=
  match RealM.promptOf r.outputs with
  | .error e => some (.error e)
  | .ok prompt => match (Value.lookup prompt cache).getD .null with
    | .null => none
    | v => some (.ok v)

namespace RealCall

def recollect (answers : List Answer) (c : RealCall) (s : RealState) : Option Answer :=
  match c.ready answers s, s.workflow with
  | .ok r, some w => r.recollect w.shared
  | _, _ => none

theorem answer_eq_recollect {base s : RealState} {cache : Cache} (hbase : base.Wraps)
    (hs : base.Within cache s) (answers : List Answer) (c : RealCall) :
    c.answer answers s = (c.recollect answers s).getD (c.answer answers s.uncached) := by
  obtain ⟨cache', -, hrecalled⟩ := recalled hbase hs answers c
  unfold recollect
  rw [hs.workflow]
  generalize c.answer answers s = answer at hrecalled
  generalize c.answer answers s.uncached = own at hrecalled
  cases hrecalled with
  | unready h hown => rw [h, hown]; rfl
  | unprompted h hprompt =>
    rw [h]
    simp only [RealM.Ready.recollect, hprompt, getD_some]
  | @found r prompt v h hprompt hfound hv =>
    rw [h]
    simp only [RealM.Ready.recollect, hprompt, hfound, getD_some]
  | failed h hprompt hmissed hown =>
    rw [h, hown]
    simp only [RealM.Ready.recollect, hprompt, hmissed, getD_none]
  | kept h hprompt hmissed hown =>
    rw [h, hown]
    simp only [RealM.Ready.recollect, hprompt, hmissed, getD_none]

end RealCall

namespace RealState

variable {earlier : List RealCall}

def entered (s : RealState) (policy : CachePolicy) : RealState :=
  ((RealM.enterWorkflow policy).run s).2

/-- The answers to calls, and the state after them, in a new workflow with a cache. -/
def cachedRun (s : RealState) (calls : List RealCall) : List Answer × RealState :=
  (s.entered .shared).perform calls

def plainRun (s : RealState) (calls : List RealCall) : List Answer × RealState :=
  (s.entered .none).perform calls

/-- The cache cannot be noticed: with it and without, calls are answered the same. -/
def Transparent (s : RealState) (calls : List RealCall) : Prop :=
  List.Forall₂ Answer.Same (s.cachedRun calls).1 (s.plainRun calls).1

/-- The cache cannot be noticed at a call after others: what it answers is what the call answers
without, and a call that it does not answer hands its method the same as without, or answers the
same nevertheless. -/
structure Unnoticed (s : RealState) (earlier : List RealCall) (c : RealCall) : Prop where
  recalled : ∀ a, c.recollect (s.cachedRun earlier).1 (s.cachedRun earlier).2 = some a →
    a.Same (c.answer (s.plainRun earlier).1 (s.plainRun earlier).2)
  made : c.recollect (s.cachedRun earlier).1 (s.cachedRun earlier).2 = none →
    c.handed (s.cachedRun earlier).1 (s.cachedRun earlier).2 ≠
      c.handed (s.plainRun earlier).1 (s.plainRun earlier).2 →
    Answer.Same (c.answer (s.cachedRun earlier).1 (s.cachedRun earlier).2)
      (c.answer (s.plainRun earlier).1 (s.plainRun earlier).2)

/-- No hidden input of a node asks for the prompt or for the id of the call. -/
def AsksNothing (s : RealState) : Prop :=
  ∀ name l inner, s.site name = .ok (l, inner) → l.Plain

def Keyed (s : RealState) (calls : List RealCall) : Prop :=
  ∀ earlier c later, calls = earlier ++ c :: later →
    ∀ r, c.ready (s.cachedRun earlier).1 (s.cachedRun earlier).2 = .ok r →
      ∃ prompt, RealM.promptOf r.outputs = .ok prompt

/-- With the cache, calls that have the same prompt are calls of the same node that hand its method
the same arguments. -/
def TellsApart (s : RealState) (calls : List RealCall) : Prop :=
  ∀ earlier c later earlier' c' later', calls = earlier ++ c :: later →
    calls = earlier' ++ c' :: later' →
    ∀ r r' prompt, c.ready (s.cachedRun earlier).1 (s.cachedRun earlier).2 = .ok r →
      c'.ready (s.cachedRun earlier').1 (s.cachedRun earlier').2 = .ok r' →
      RealM.promptOf r.outputs = .ok prompt → RealM.promptOf r'.outputs = .ok prompt →
      c.node = c'.node ∧ r.named = r'.named

variable {s : RealState}

theorem noCache_entered (s : RealState) : (s.entered .none).NoCache := by
  rintro - w hw
  cases hw
  rfl

theorem plainly_plainRun (hs : s.Wraps) (calls : List RealCall) : s.Plainly (s.plainRun calls).2 :=
  plainly_perform hs (s := s.entered .none) ⟨⟨rfl, rfl⟩, s.noCache_entered⟩ calls

/-- The value is what an earlier call with the prompt would answer without the cache. -/
def KeptBy (s : RealState) (earlier : List RealCall) (prompt : String) (v : Value) : Prop :=
  ∃ before c after r, earlier = before ++ c :: after ∧
    c.ready (s.cachedRun before).1 (s.cachedRun before).2 = .ok r ∧
    RealM.promptOf r.outputs = .ok prompt ∧
    c.answer (s.cachedRun before).1 (s.cachedRun before).2.uncached = .ok v

theorem KeptBy.append {prompt : String} {v : Value} (h : s.KeptBy earlier prompt v) (later : List RealCall) :
    s.KeptBy (earlier ++ later) prompt v := by
  obtain ⟨before, c, after, r, rfl, hr⟩ := h
  exact ⟨before, c, after ++ later, r, by simp, hr⟩

theorem kept_cachedRun (hs : s.Wraps) (calls : List RealCall) :
    ∃ cache, s.Within cache (s.cachedRun calls).2 ∧
      ∀ prompt v, Value.lookup prompt cache = some v → s.KeptBy calls prompt v := by
  induction calls using List.reverseRecOn with
  | nil => exact ⟨[], ⟨⟨rfl, rfl⟩, rfl, rfl⟩, fun _ _ h => nomatch h⟩
  | append_singleton calls c ih =>
    obtain ⟨cache, hwithin, hkept⟩ := ih
    obtain ⟨cache', hwithin', hrecalled⟩ := RealCall.recalled hs hwithin (s.cachedRun calls).1 c
    refine ⟨cache', ?_, fun prompt v hv => ?_⟩
    · rw [cachedRun, perform_concat]
      exact hwithin'
    · generalize c.answer (s.cachedRun calls).1 (s.cachedRun calls).2 = answer at hrecalled
      cases hrecalled with
      | @kept r new w hr hnew _ hown =>
        rw [← Value.put_eq_tablePut, Value.lookup_put] at hv
        split at hv
        · rename_i hprompt
          obtain rfl := some.inj hv
          exact ⟨calls, c, [], r, rfl, hr, hprompt ▸ hnew, hown⟩
        · exact (hkept prompt v hv).append [c]
      | _ => exact (hkept prompt v hv).append [c]

theorem uncached_alike (hs : s.Wraps) {c : RealCall}
    (h : c.handed (s.cachedRun earlier).1 (s.cachedRun earlier).2 =
      c.handed (s.plainRun earlier).1 (s.plainRun earlier).2) :
    (c.answer (s.cachedRun earlier).1 (s.cachedRun earlier).2.uncached).Alike
      (c.answer (s.plainRun earlier).1 (s.plainRun earlier).2) := by
  obtain ⟨cache, hwithin, -⟩ := kept_cachedRun hs earlier
  refine RealCall.answer_alike_of_handed hs hwithin.uncached (plainly_plainRun hs earlier) rfl ?_
  rw [RealCall.handed, RealCall.ready_uncached (hwithin.wraps hs)]
  exact h

theorem transparent_iff_unnoticed (hs : s.Wraps) (calls : List RealCall) :
    s.Transparent calls ↔
      ∀ earlier c later, calls = earlier ++ c :: later → s.Unnoticed earlier c := by
  rw [Transparent, cachedRun, plainRun, forall₂_perform_iff]
  refine forall_congr' fun earlier => forall_congr' fun c => forall_congr' fun later =>
    imp_congr_right fun _ => ?_
  change Answer.Same (c.answer (s.cachedRun earlier).1 (s.cachedRun earlier).2)
    (c.answer (s.plainRun earlier).1 (s.plainRun earlier).2) ↔ _
  obtain ⟨cache, hwithin, -⟩ := kept_cachedRun hs earlier
  have hanswer := RealCall.answer_eq_recollect hs hwithin (s.cachedRun earlier).1 c
  constructor
  · intro h
    refine ⟨fun a ha => ?_, fun _ _ => h⟩
    rw [ha, getD_some] at hanswer
    exact hanswer ▸ h
  · intro h
    cases hrecollect : c.recollect (s.cachedRun earlier).1 (s.cachedRun earlier).2 with
    | some a =>
      rw [hanswer, hrecollect, getD_some]
      exact h.recalled a hrecollect
    | none =>
      by_cases hhanded : c.handed (s.cachedRun earlier).1 (s.cachedRun earlier).2 =
          c.handed (s.plainRun earlier).1 (s.plainRun earlier).2
      · rw [hanswer, hrecollect, getD_none]
        exact (uncached_alike hs hhanded).same
      · exact h.made hrecollect hhanded

theorem answer_alike_uncached (hs : s.Wraps) {calls later : List RealCall} {c : RealCall}
    (hkeyed : s.Keyed calls) (hapart : s.TellsApart calls) (hcalls : calls = earlier ++ c :: later) :
    (c.answer (s.cachedRun earlier).1 (s.cachedRun earlier).2).Alike
      (c.answer (s.cachedRun earlier).1 (s.cachedRun earlier).2.uncached) := by
  obtain ⟨cache, hwithin, hkept⟩ := kept_cachedRun hs earlier
  obtain ⟨cache', -, hrecalled⟩ := RealCall.recalled hs hwithin (s.cachedRun earlier).1 c
  generalize hown : c.answer (s.cachedRun earlier).1 (s.cachedRun earlier).2.uncached = own
  rw [hown] at hrecalled
  generalize c.answer (s.cachedRun earlier).1 (s.cachedRun earlier).2 = answer at hrecalled
  cases hrecalled with
  | unready _ h => exact h ▸ .refl own
  | failed _ _ _ h => exact h ▸ .refl own
  | kept _ _ _ h => exact h ▸ .refl own
  | unprompted hr hprompt =>
    obtain ⟨prompt, hkey⟩ := hkeyed earlier c later hcalls _ hr
    rw [hprompt] at hkey
    cases hkey
  | @found r prompt v hr hprompt hfound _ =>
    obtain ⟨before, c', after, r', hearlier, hr', hprompt', hown'⟩ := hkept prompt v hfound
    have hcalls' : calls = before ++ c' :: (after ++ c :: later) := by rw [hcalls, hearlier]; simp
    obtain ⟨hnode, hnamed⟩ := hapart before c' _ earlier c later hcalls' hcalls r' r prompt hr' hr
      hprompt' hprompt
    obtain ⟨cache', hwithin', -⟩ := kept_cachedRun hs before
    rw [← hown, ← hown']
    refine RealCall.answer_alike_of_handed hs hwithin'.uncached hwithin.uncached hnode ?_
    have hhanded : r'.handed = r.handed := by
      rw [RealM.Ready.handed, RealM.Ready.handed, hnamed, RealM.isSome_of_promptOf hprompt,
        RealM.isSome_of_promptOf hprompt']
    rw [RealCall.handed, RealCall.handed, RealCall.ready_uncached (hwithin.wraps hs),
      RealCall.ready_uncached (hwithin'.wraps hs), hr, hr']
    exact congrArg Except.ok hhanded

theorem transparent_of_tellsApart (hs : s.Wraps) (hasks : s.AsksNothing) {calls : List RealCall}
    (hkeyed : s.Keyed calls) (hapart : s.TellsApart calls) : s.Transparent calls := by
  -- the answers are even alike, so that the arguments of later calls are
  suffices hall : ∀ earlier later, calls = earlier ++ later →
      List.Forall₂ Answer.Alike (s.cachedRun earlier).1 (s.plainRun earlier).1 from
    (hall calls [] (by simp)).imp fun _ _ => Answer.Alike.same
  intro earlier
  induction earlier using List.reverseRecOn with
  | nil => exact fun _ _ => .nil
  | append_singleton earlier c ih =>
    intro later hcalls
    rw [← append_cons] at hcalls
    have halike := ih _ hcalls
    obtain ⟨cache, hwithin, -⟩ := kept_cachedRun hs earlier
    have hhanded := RealCall.handed_eq hs hwithin.toFollows (plainly_plainRun hs earlier).toFollows
      halike (hasks c.node)
    have hc := (answer_alike_uncached hs hkeyed hapart hcalls).trans (uncached_alike hs hhanded)
    rw [cachedRun, plainRun, perform_concat, perform_concat]
    exact rel_append halike (.cons hc .nil)

/-- For nodes that were loaded, a cache cannot be noticed in a sequence of calls if and only if what it
answers is right at each call, and calls that it does not answer are not led astray. That is so if no
hidden input asks for the prompt, calls have prompts, and these tell them apart. -/
theorem cache_transparent_iff_unnoticed {session : Session Unit} {classes : List (String × NodeClass)}
    {here : LocalNodes} {info : Value} {registry : Registry}
    (hload : (RealM.loadNodes .full here info).run (.new session classes) = (.ok registry, s))
    (calls : List RealCall) :
    (s.Transparent calls ↔
      ∀ earlier c later, calls = earlier ++ c :: later → s.Unnoticed earlier c) ∧
    (s.AsksNothing → s.Keyed calls → s.TellsApart calls → s.Transparent calls) := by
  obtain ⟨infos, -, hloaded⟩ := RealM.loaded_loadNodes hload
  exact ⟨transparent_iff_unnoticed hloaded.wraps calls,
    fun hasks hkeyed hapart => transparent_of_tellsApart hloaded.wraps hasks hkeyed hapart⟩

def storeClasses : List (String × NodeClass) := [
  ("Store", {
    module := "nodes", name := "Store", lineage := ["Store"]
    inputs := .ok (.dict [("required", .dict [])])
    attributes := [("RETURN_TYPES", .tuple []), ("FUNCTION", .str "go")]
    methods := [("go", ⟨"Store", fun _ _ => .ok (.tuple [.str "x"])⟩)] }),
  ("Echo", {
    module := "nodes", name := "Echo", lineage := ["Echo"]
    inputs := .ok (.dict [("required", .dict [("text", .tuple [.str "STRING"])])])
    attributes := [("RETURN_TYPES", .tuple [.str "STRING"]), ("FUNCTION", .str "go")]
    methods := [("go", ⟨"Echo", fun _ named => .ok (.tuple [(Value.lookup "text" named).getD .null])⟩)] })]

def loadedStore : Except Fault Registry × RealState :=
  (RealM.loadNodes .full ⟨none, some []⟩ (nodesInfoOf storeClasses [])).run
    (.new (.new ⟨[]⟩ "http://host/" false) storeClasses)

def storeCalls : List RealCall := [⟨"Store", [], []⟩, ⟨"Echo", [.result 0], []⟩]

/-- The second call is not tracked, so that it fails with a cache, and succeeds without. -/
theorem cache_transparent_iff_unnoticed_storeCalls : ∃ registry,
    loadedStore = (.ok registry, loadedStore.2) ∧ ¬ loadedStore.2.Transparent storeCalls ∧
    ∃ earlier c later, storeCalls = earlier ++ c :: later ∧ ¬ loadedStore.2.Unnoticed earlier c := by
  have hok : loadedStore.1.isOk = true := by decide +kernel
  have hcached : (loadedStore.2.cachedRun storeCalls).1.map Except.isOk = [true, false] := by
    decide +kernel
  have hplain : (loadedStore.2.plainRun storeCalls).1.map Except.isOk = [true, true] := by
    decide +kernel
  have hdiffers : ¬ loadedStore.2.Transparent storeCalls := by
    intro h
    have hsame := Answer.map_isOk_eq h
    rw [hcached, hplain] at hsame
    cases hsame
  cases hload : loadedStore.1 with
  | error e =>
    rw [hload] at hok
    cases hok
  | ok registry =>
    have hloaded : loadedStore = (.ok registry, loadedStore.2) := Prod.ext hload rfl
    refine ⟨registry, hloaded, hdiffers, ?_⟩
    by_contra hnone
    apply hdiffers
    apply (cache_transparent_iff_unnoticed hloaded storeCalls).1.mpr
    intro earlier c later hcalls
    by_contra hnoticed
    exact hnone ⟨earlier, c, later, hcalls, hnoticed⟩

end RealState

end Flowscript
