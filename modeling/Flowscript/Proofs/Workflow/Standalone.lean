import Flowscript.Proofs.Source
import Flowscript.Proofs.Workflow.Closed
import Flowscript.Proofs.Workflow.Survival

/-!
# Scripts that run by themselves

A script that runs by itself has a fixed beginning and then the statements of the plain script, each
one level deeper. The statements are moved line by line, without regard to literals that go over
several lines; this module says exactly when the literals stay as they are.
-/

namespace Flowscript

open List Option

def IsLines (s : String) : Prop := s = "" ∨ ∃ t, s = t ++ "\n"

namespace Text

theorem linesFrom_append (line left right : List Char) :
    linesFrom line (left ++ '\n' :: right) =
      linesFrom line (left ++ ['\n']) ++ linesFrom [] right := by
  fun_induction linesFrom line left with
  | case1 line hline => rfl
  | case2 line hline => rfl
  | case3 line rest ih => simp only [cons_append, linesFrom, ih]
  | case4 line c rest hc hend ih =>
    by_cases hreturn : c = '\r' ∧ rest = []
    · obtain ⟨rfl, rfl⟩ := hreturn
      rfl
    · have hpair (tail tail' : List Char) (hcr : c = '\r') : rest ++ '\n' :: tail ≠ '\n' :: tail' := by
        intro heq
        cases rest with
        | nil => exact hreturn ⟨hcr, rfl⟩
        | cons d rest => exact hc rest hcr (by rw [(cons.inj heq).1])
      rw [cons_append, cons_append, linesFrom, linesFrom, if_pos hend, if_pos hend, ih,
        cons_append]
      · exact fun tail hcr => hpair [] tail hcr
      · exact fun tail hcr => hpair right tail hcr
  | case5 line c rest hc hend ih =>
    have hother : isLineEnd c = false := by simpa using hend
    rw [cons_append, cons_append, Source.linesFrom_of_not_isLineEnd hother,
      Source.linesFrom_of_not_isLineEnd hother, ih]

theorem indent_append (margin : String) {s : String} (hs : IsLines s) (t : String) :
    indent margin (s ++ t) = indent margin s ++ indent margin t := by
  apply String.toList_injective
  rcases hs with rfl | ⟨u, rfl⟩
  · simp [Source.toList_indent, linesFrom]
  · have hnewline : "\n".toList = ['\n'] := rfl
    simp only [Source.toList_indent, String.toList_append, hnewline, append_assoc,
      singleton_append]
    rw [linesFrom_append, flatMap_append]

theorem indent_join (margin : String) {texts : List String} (h : ∀ s ∈ texts, IsLines s) :
    indent margin (String.join texts) = String.join (texts.map (indent margin)) := by
  induction texts with
  | nil => rfl
  | cons s rest ih =>
    rw [forall_mem_cons] at h
    rw [map_cons, String.join_cons, String.join_cons, indent_append margin h.1, ih h.2]

end Text

namespace Workflow

theorem eq_append_of_cutLiteralCall {cs front rest : List Char}
    (h : cutLiteralCall cs = some (front, rest)) : cs = front ++ literalCall ++ rest := by
  induction cs generalizing front with
  | nil => cases h
  | cons c cs ih =>
    unfold cutLiteralCall at h
    split at h
    next rest' hafter =>
      obtain ⟨rfl, rfl⟩ := Prod.mk.inj (some.inj h)
      exact after?_eq_some_iff.mp hafter
    next hafter =>
      obtain ⟨⟨front', rest'⟩, hcut, heq⟩ := map_eq_some_iff.mp h
      obtain ⟨rfl, rfl⟩ := Prod.mk.inj heq
      rw [ih hcut]
      rfl

theorem length_trimRight_le (cs : List Char) : (Text.trimRight cs).length ≤ cs.length := by
  have hsuffix := (dropWhile_suffix Text.isBlank (l := cs.reverse)).length_le
  simpa [Text.trimRight] using hsuffix

theorem isLines_of_literalOf? {text line : String} (htext : IsLines text)
    (h : literalOf? text = some line) : IsLines line := by
  unfold literalOf? at h
  split at h
  · cases h
  next front rest hcut =>
    have hsplit := eq_append_of_cutLiteralCall hcut
    have hcall : literalCall.getLast? = some '(' := by decide
    -- the call does not end with a line feed, so what follows it does
    obtain ⟨tail, rfl⟩ : ∃ tail, rest = tail ++ ['\n'] := by
      have hlast : (front ++ literalCall ++ rest).getLast? = some '\n' := by
        rcases htext with rfl | ⟨u, rfl⟩
        · have hnil : literalCall = [] := by
            rw [String.toList_empty, eq_comm, append_eq_nil_iff, append_eq_nil_iff] at hsplit
            exact hsplit.1.2
          rw [hnil] at hcall
          cases hcall
        · rw [← hsplit, String.toList_append]
          exact getLast?_concat
      rw [← getLast?_eq_some_iff]
      cases rest with
      | nil =>
        rw [append_nil, getLast?_append, hcall] at hlast
        exact absurd (some.inj hlast) (by decide)
      | cons c rest =>
        rw [getLast?_append] at hlast
        simpa using hlast
    have htrim : Text.trimRight (tail ++ ['\n']) = Text.trimRight tail := by
      simp [Text.trimRight, Text.isBlank, Text.inSpans, Text.blankSpans]
    rw [htrim] at h
    dsimp only at h
    split at h
    · obtain rfl := some.inj h
      rw [drop_append_of_le_length (length_trimRight_le tail), ← append_assoc,
        String.ofList_append]
      exact .inr ⟨_, rfl⟩
    · cases h

theorem Statement.isLines_text (s : Statement) : IsLines s.text := .inr ⟨_, rfl⟩

theorem isLines_of_isWritten {c : Contribution} (h : c.IsWritten) : IsLines c.line := by
  rcases h with hline | ⟨s, -, hline | hline⟩
  · exact .inl hline
  · exact hline ▸ s.isLines_text
  · exact isLines_of_literalOf? s.isLines_text hline

namespace Transpiler

theorem margin_eq : "    " = String.ofList (List.replicate 4 ' ') := rfl

theorem withImports_eq (script : String) :
    withImports script = withImports "" ++ Text.indent "    " script := by
  have hempty (margin : String) : Text.indent margin "" = "" := rfl
  unfold withImports
  rw [hempty, String.append_empty]

/-- A script that runs by itself has a fixed beginning and the statements of the plain script, each
indented. The literals of both stand for the same texts if and only if no line of the plain script
that is not blank starts inside one, or the plain script cannot be read. -/
theorem script_standalone_iff {workflow nodesInfo ends : Value} {t : Transpiler}
    (ht : (openWorkflow workflow nodesInfo).2 = .ok t) :
    (∀ e, (t.script ends true).1.script = .error e ↔ (t.script ends false).1.script = .error e) ∧
    ∀ plain, (t.script ends false).1.script = .ok plain → ∃ cs body,
      t.contributionsFor ends = .ok cs ∧ plain = String.join (cs.map Contribution.line) ∧
      (t.script ends true).1.script = .ok (withImports "" ++ body) ∧
      body = String.join (cs.map fun c => Text.indent "    " c.line) ∧
      (Source.literals body = Source.literals plain ↔
        Source.literals plain = none ∨ ¬ Source.SpansLines plain) := by
  rw [script_eq, script_eq]
  cases hcs : t.contributionsFor ends with
  | error e => exact ⟨fun e' => Iff.rfl, nofun⟩
  | ok cs =>
    refine ⟨fun e' => ⟨nofun, nofun⟩, fun plain hplain => ?_⟩
    obtain rfl := Except.ok.inj hplain
    obtain ⟨⟨log, ends'⟩, -, hcontributions⟩ := ok_of_bind hcs
    have hsucceeds := succeeds_contributions (isFresh_openWorkflow ht) hcontributions
    have hlines : ∀ s ∈ cs.map Contribution.line, IsLines s := by
      intro s hs
      obtain ⟨c, hc, rfl⟩ := List.mem_map.mp hs
      obtain ⟨earlier, later, hsplit⟩ := List.append_of_mem hc
      exact isLines_of_isWritten (hsucceeds earlier c later hsplit).written
    have hbody := Text.indent_join "    " hlines
    rw [List.map_map] at hbody
    refine ⟨cs, Text.indent "    " (String.join (cs.map Contribution.line)), rfl, rfl, ?_, hbody, ?_⟩
    · exact congrArg Except.ok (withImports_eq _)
    · rw [margin_eq]
      exact Source.literals_indent_iff (by decide) _

def noteTypes : Value :=
  .dict [("Say", .dict [("input", .dict [("required", .dict [("text", .list [.str "STRING"])])]),
    ("output", .list []), ("output_name", .list [])])]

def twoLineWorkflow : Value :=
  .dict [("nodes", .list [.dict [("id", .int 1), ("type", .str "Say"), ("pos", .list [.int 0, .int 0]),
      ("mode", .int 0), ("widgets_values", .list [.str "one\ntwo"])]]),
    ("links", .list []), ("version", version)]

/-- The second line of the text is indented with its statement. -/
theorem script_standalone_iff_twoLineWorkflow :
    ∃ t body, (openWorkflow twoLineWorkflow noteTypes).2 = .ok t ∧
      (t.script .null false).1.script = .ok "Say('''one\ntwo''')\n" ∧
      (t.script .null true).1.script = .ok (withImports "" ++ body) ∧
      Source.literals body ≠ Source.literals "Say('''one\ntwo''')\n" := by
  have htext : ((openWorkflow twoLineWorkflow noteTypes).2 >>= fun t =>
      (t.script .null false).1.script).toOption = some "Say('''one\ntwo''')\n" := by
    decide +kernel
  obtain ⟨t, ht, hscript⟩ := ok_of_bind (toOption_eq_some_iff.mp htext)
  obtain ⟨cs, body, -, -, hbody, -, hiff⟩ := (script_standalone_iff ht).2 _ hscript
  refine ⟨t, body, ht, hscript, hbody, fun hsame => ?_⟩
  rcases hiff.mp hsame with hnone | hspans
  · exact absurd hnone (by rw [Option.eq_none_iff_forall_not_mem]; decide +kernel)
  · exact hspans ⟨["Say('''one\n".toList], "two''')\n".toList, [], by decide +kernel,
      by decide +kernel, by decide +kernel⟩

end Transpiler

end Workflow

end Flowscript
