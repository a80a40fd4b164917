import Flowscript.Proofs.Workflow.Sketch
import Flowscript.Proofs.Workflow.Standalone

/-!
# Statements that read as moves

One of the passes drops every statement that reads as the move of a variable to itself, whatever the
type of its node. All it looks at is the text, so a call is dropped as well if a widget value makes
its text read so. No other pass touches the statement of a node that it is not made for.
-/

namespace Flowscript.Workflow

variable {d d' : Draft} {nodesInfo id : Value} {k : Sketch} {type : String}

theorem Sketch.Of.unmarked (hk : k.Of nodesInfo id d) (hd : d.HoldsVariables) {a : Argument}
    (ha : a ∈ k.targets.arguments) (hwidget : ∀ v, a = .widget v → Unmarked (Literal.ofValue v).toList) :
    Unmarked a.text.toList := by
  have hhole : ' ' ∉ "_".toList := by decide
  cases a with
  | widget v => exact hwidget v rfl
  | hole _ => exact unmarked_of_blank_not_mem hhole
  | absent => exact unmarked_of_blank_not_mem (by decide)
  | held x _ _ =>
    exact unmarked_of_blank_not_mem fun hblank => absurd (hk.isWordy_held hd ha ' ' hblank) (by decide)

theorem contribute_of_not_mem (hk : k.Of nodesInfo id d) (hmode : (k.mode == bypassMode) = false)
    (htype : k.type = .str type) (hpass : type ∉ passTypes) :
    contribute nodesInfo id k.node k.mode k.type k.callee k.named k.targets = .ok ⟨id, k.targets,
      some k.statement, if movesToItself k.statement.text then "" else k.statement.text⟩ := by
  have hchoice : choiceOfNode nodesInfo k.node = .ok none :=
    hk.choiceOfNode_ok htype fun hmem => hpass (List.mem_append_right _ hmem)
  have hline : eliminate (subjectOf k.type k.named false) k.statement.text =
      .ok (if movesToItself k.statement.text then "" else k.statement.text) :=
    eliminate_of_not_mem htype hpass rfl k.statement.text_ne_empty
  unfold contribute
  rw [statementOf_sketch k hmode]
  simp only [hchoice, ok_bind, Option.isSome_none, hline]

theorem Sketch.Of.exists_widget_of_readsAsMove (hk : k.Of nodesInfo id d) (hd : d.HoldsVariables)
    (h : ReadsAsMove k.statement.text) :
    ∃ v, .widget v ∈ k.targets.arguments ∧ ¬ Unmarked (Literal.ofValue v).toList := by
  by_contra hnone
  have hbracket {x : String} (hx : IsWordy x) : '(' ∉ x.toList := fun hmem =>
    absurd (hx '(' hmem) (by decide)
  have hmoves : movesToItself k.statement.text = false := by
    refine not_movesToItself_call rfl (fun x hx => hbracket (hk.isWordy_names hd hx))
      (hbracket hk.isWordy_callee) fun a ha => hk.unmarked hd ha fun v hv => ?_
    by_contra hmarked
    exact hnone ⟨v, hv ▸ ha, hmarked⟩
  rw [movesToItself_iff.mpr h] at hmoves
  cases hmoves

namespace Transpiler

/-- The statement of a node whose type no pass is made for. No pass refuses it, and the passes leave
it as it is unless its text reads as the move of a variable to itself; then it is dropped, and some
widget value of it has the mark of an assignment. -/
theorem survives_passes_iff {workflow : Value} {t : Transpiler} {ids : List Value}
    {cs : List Contribution} (ht : (openWorkflow workflow nodesInfo).2 = .ok t)
    (hrun : (emitAll nodesInfo ids).run ⟨t.graph, []⟩ = (.ok cs, d))
    (hk : (sketch nodesInfo id).run d = (.ok k, d')) (hmode : k.mode = .int 0)
    (htype : k.type = .str type) (hpass : type ∉ passTypes) :
    ∃ line, (emit nodesInfo id).run d = (.ok ⟨id, k.targets, some k.statement, line⟩, d') ∧
      (line = k.statement.text ↔ ¬ ReadsAsMove k.statement.text) ∧
      (ReadsAsMove k.statement.text → line = "" ∧
        ∃ v, .widget v ∈ k.targets.arguments ∧ ¬ Unmarked (Literal.ofValue v).toList) := by
  have hof := of_run_sketch hk
  have hd : d.HoldsVariables := (holdsVariables_of_isFresh (isFresh_openWorkflow ht) []).emitAll hrun
  have hcontribute := contribute_of_not_mem hof (hmode ▸ rfl) htype hpass
  refine ⟨if movesToItself k.statement.text then "" else k.statement.text, ?_, ?_, fun hmove =>
    ⟨if_pos (movesToItself_iff.mpr hmove), hof.exists_widget_of_readsAsMove hd hmove⟩⟩
  · rw [emit_eq, run_bind_ok hk, hcontribute]
    rfl
  · rw [← movesToItself_iff, Bool.not_eq_true]
    cases movesToItself k.statement.text with
    | true => simpa using k.statement.text_ne_empty.symm
    | false => simp

def echoWorkflow : Value :=
  .dict [("nodes", .list [.dict [("id", .int 1), ("type", .str "Say"), ("pos", .list [.int 0, .int 0]),
      ("mode", .int 0), ("widgets_values", .list [.str ") = Say("])]]),
    ("links", .list []), ("version", version)]

/-- The call of the node reads as a move, so nothing is left of it. -/
theorem survives_passes_iff_echoWorkflow :
    ∃ t k d', (openWorkflow echoWorkflow noteTypes).2 = .ok t ∧
      (sketch noteTypes (.int 1)).run ⟨t.graph, []⟩ = (.ok k, d') ∧
      k.statement.text = "Say(') = Say(')\n" ∧
      (emit noteTypes (.int 1)).run ⟨t.graph, []⟩ =
        (.ok ⟨.int 1, k.targets, some k.statement, ""⟩, d') := by
  have htext : ((openWorkflow echoWorkflow noteTypes).2 >>= fun t =>
      ((sketch noteTypes (.int 1)).run ⟨t.graph, []⟩).1.map fun k => k.statement.text).toOption =
        some "Say(') = Say(')\n" := by
    decide +kernel
  obtain ⟨t, ht, hsketch⟩ := ok_of_bind (toOption_eq_some_iff.mp htext)
  obtain ⟨k, hresult, hstatement⟩ := ok_of_map hsketch
  have hk : (sketch noteTypes (.int 1)).run ⟨t.graph, []⟩ =
    (.ok k, ((sketch noteTypes (.int 1)).run ⟨t.graph, []⟩).2) := Prod.ext hresult rfl
  have hof := of_run_sketch hk
  have hfirst : (emitAll noteTypes []).run ⟨t.graph, []⟩ = (.ok [], ⟨t.graph, []⟩) := rfl
  obtain rfl := Except.ok.inj ht
  have hnode := Except.ok.inj hof.node
  have hmode : k.mode = .int 0 := Except.ok.inj (hof.mode.symm.trans (hnode ▸ rfl))
  have htype : k.type = .str "Say" := Except.ok.inj (hof.type.symm.trans (hnode ▸ rfl))
  have hmove : ReadsAsMove k.statement.text := by
    rw [hstatement]
    exact ⟨[], "Say(')".toList, ['\n'], .inl rfl, by decide, by decide, rfl, rfl⟩
  obtain ⟨line, hemit, -, hdropped⟩ := survives_passes_iff ht hfirst hk hmode htype (by decide)
  obtain ⟨rfl, -⟩ := hdropped hmove
  exact ⟨_, k, _, ht, hk, hstatement, hemit⟩

end Transpiler

end Flowscript.Workflow
