import Flowscript.Proofs.Workflow.Sketch
import Flowscript.Proofs.Workflow.Standalone

/-!
# Statements that are comments

A statement with outputs of which none is used is written as a comment: a hash stands in front of
it. A text with line ends goes on in further lines, and these have a hash only if the text has one
there. So a statement is a comment as a whole if and only if behind every line end in its widget
values stands a hash.
-/

namespace Flowscript

open List

namespace Source

variable {cs front : List Char} {c : Char}

/-! ## Lines that start with a hash -/

/-- The lines of a text whose line ends are line feeds; `line` holds the current line backwards. -/
def linesFrom (line : List Char) : List Char → List (List Char)
  | [] => if line.isEmpty then [] else [line.reverse]
  | c :: rest => if c = '\n' then line.reverse :: linesFrom [] rest else linesFrom (c :: line) rest

def lines (s : String) : List (List Char) := linesFrom [] (unixEnds s.toList)

def Hashed : List Char → Prop
  | [] => True
  | c :: rest => (c = '\n' → rest.head? = some '#') ∧ Hashed rest

theorem hashed_of_not_mem (h : '\n' ∉ cs) : Hashed cs := by
  induction cs with
  | nil => trivial
  | cons c rest ih =>
    rw [mem_cons, not_or] at h
    exact ⟨fun hc => absurd hc.symm h.1, ih h.2⟩

theorem hashed_append_of_not_mem (h : '\n' ∉ front) (cs : List Char) :
    Hashed (front ++ cs) ↔ Hashed cs := by
  induction front with
  | nil => rfl
  | cons c front ih =>
    rw [mem_cons, not_or] at h
    exact ⟨fun hcs => (ih h.2).mp hcs.2, fun hcs => ⟨fun hc => absurd hc.symm h.1, (ih h.2).mpr hcs⟩⟩

theorem hashed_append_cons (hc : c ≠ '#') (front rest : List Char) :
    Hashed (front ++ c :: rest) ↔ Hashed front ∧ Hashed (c :: rest) := by
  induction front with
  | nil => simp [Hashed]
  | cons d front ih =>
    have hhead : (front ++ c :: rest).head? = some '#' ↔ front.head? = some '#' := by
      cases front with
      | nil => simp [hc]
      | cons e front => rfl
    rw [cons_append, Hashed, Hashed, ih, hhead, and_assoc]

theorem forall_linesFrom_iff (line cs : List Char) :
    (∀ l ∈ linesFrom line (cs ++ ['\n']), l.head? = some '#') ↔
      (line.reverse ++ cs).head? = some '#' ∧ Hashed cs := by
  induction cs generalizing line with
  | nil => simp [linesFrom, Hashed]
  | cons c cs ih =>
    rw [cons_append, linesFrom, Hashed]
    by_cases hc : c = '\n'
    · subst hc
      have hfirst : (line.reverse ++ '\n' :: cs).head? = some '#' ↔ line.reverse.head? = some '#' := by
        cases line.reverse with
        | nil => simp
        | cons d rest => rfl
      rw [if_pos rfl, forall_mem_cons, ih, hfirst]
      simp
    · rw [if_neg hc, ih]
      simp [hc]

/-! ## Line ends of a script -/

theorem unixEnds_append_cons (hc : c ≠ '\n') (front rest : List Char) :
    unixEnds (front ++ c :: rest) = unixEnds front ++ unixEnds (c :: rest) := by
  fun_induction unixEnds front with
  | case1 => rfl
  | case2 front ih =>
    rw [cons_append, cons_append, unixEnds, ih]
    rfl
  | case3 front hnot ih =>
    rw [cons_append, unixEnds_return, ih]
    · rfl
    · cases front with
      | nil => simpa using hc
      | cons d front =>
        intro hd
        exact hnot front (by rw [Option.some.inj hd])
  | case4 d front hnot hreturn ih =>
    rw [cons_append, unixEnds_cons_of_ne hreturn, ih]
    rfl

theorem unixEnds_of_not_mem (h : '\r' ∉ cs) : unixEnds cs = cs := by
  simpa [unixEnds] using unixEnds_append h []

structure Apart (c : Char) : Prop where
  feed : c ≠ '\n'
  carriage : c ≠ '\r'
  hash : c ≠ '#'

theorem apart_quote : Apart '\'' := ⟨by decide, by decide, by decide⟩

theorem hashed_unixEnds_cons (hc : Apart c) (cs : List Char) :
    Hashed (unixEnds (c :: cs)) ↔ Hashed (unixEnds cs) := by
  have hone : '\n' ∉ [c] := by simpa using hc.feed.symm
  rw [unixEnds_cons_of_ne hc.carriage]
  exact hashed_append_of_not_mem hone _

theorem hashed_unixEnds_append (h : ∀ c ∈ front, Apart c) (cs : List Char) :
    Hashed (unixEnds (front ++ cs)) ↔ Hashed (unixEnds cs) := by
  induction front with
  | nil => rfl
  | cons c front ih =>
    rw [forall_mem_cons] at h
    rw [cons_append, hashed_unixEnds_cons h.1, ih h.2]

theorem hashed_unixEnds_between {mid : List Char} (hne : mid ≠ []) (h : ∀ c ∈ mid, Apart c)
    (front rest : List Char) :
    Hashed (unixEnds (front ++ mid ++ rest)) ↔ Hashed (unixEnds front) ∧ Hashed (unixEnds rest) := by
  cases mid with
  | nil => exact absurd rfl hne
  | cons c mid =>
    rw [forall_mem_cons] at h
    obtain ⟨hc, hmid⟩ := h
    rw [append_assoc, cons_append, unixEnds_append_cons hc.feed,
      unixEnds_cons_of_ne hc.carriage, hashed_append_cons hc.hash, ← unixEnds_cons_of_ne hc.carriage,
      hashed_unixEnds_cons hc, hashed_unixEnds_append hmid]

def OneLine (cs : List Char) : Prop := '\n' ∉ cs ∧ '\r' ∉ cs

theorem OneLine.append (hfront : OneLine front) (hcs : OneLine cs) :
    OneLine (front ++ cs) := by
  unfold OneLine
  rw [mem_append, mem_append, not_or, not_or]
  exact ⟨⟨hfront.1, hcs.1⟩, hfront.2, hcs.2⟩

theorem OneLine.hashed (h : OneLine cs) : Hashed (unixEnds cs) := by
  rw [unixEnds_of_not_mem h.2]
  exact hashed_of_not_mem h.1

def Halts (cs : List Char) : Prop := cs.getLast? ≠ some '\n' ∧ cs.getLast? ≠ some '\r'

theorem OneLine.halts (h : OneLine cs) : Halts cs :=
  ⟨fun hlast => h.1 (mem_of_getLast? hlast), fun hlast => h.2 (mem_of_getLast? hlast)⟩

theorem Halts.append (hfront : Halts front) (hcs : Halts cs) :
    Halts (front ++ cs) := by
  unfold Halts
  rw [getLast?_append]
  cases hlast : cs.getLast? with
  | none => simpa [Halts] using hfront
  | some c =>
    rw [Halts, hlast] at hcs
    simpa using hcs

theorem halts_concat (hc : Apart c) (front : List Char) : Halts (front ++ [c]) := by
  simpa [Halts] using And.intro hc.feed hc.carriage

theorem unixEnds_concat (h : Halts cs) : unixEnds (cs ++ ['\n']) = unixEnds cs ++ ['\n'] := by
  rcases eq_nil_or_concat' cs with rfl | ⟨front, c, rfl⟩
  · rfl
  · have hfeed : c ≠ '\n' := fun hc => h.1 (by simp [hc])
    have hreturn : c ≠ '\r' := fun hc => h.2 (by simp [hc])
    rw [append_assoc, singleton_append, unixEnds_append_cons hfeed, unixEnds_append_cons hfeed,
      unixEnds_cons_of_ne hreturn, unixEnds_cons_of_ne hreturn, append_assoc]
    rfl

theorem forall_lines_iff {text : String} {part last : List Char}
    (htext : text.toList = '#' :: (front ++ part ++ last) ++ ['\n']) (hfront : OneLine front)
    (hlast : last = [')'] ∨ last = [] ∧ Halts part) :
    (∀ line ∈ lines text, line.head? = some '#') ↔ Hashed (unixEnds part) := by
  have hends : unixEnds text.toList = '#' :: (front ++ unixEnds part ++ last) ++ ['\n'] := by
    rw [htext, List.cons_append, unixEnds_cons_of_ne (by decide), List.append_assoc, List.append_assoc,
      unixEnds_append hfront.2]
    rcases hlast with rfl | ⟨rfl, hhalts⟩
    · rw [List.singleton_append, unixEnds_append_cons (by decide)]
      simp [unixEnds]
    · rw [List.nil_append, unixEnds_concat hhalts]
      simp
  rw [lines, hends, forall_linesFrom_iff]
  have hpart : Hashed (unixEnds part ++ last) ↔ Hashed (unixEnds part) := by
    rcases hlast with rfl | ⟨rfl, -⟩
    · rw [hashed_append_cons (by decide)]
      exact and_iff_left (hashed_of_not_mem (by decide))
    · rw [List.append_nil]
  rw [Hashed, List.append_assoc, hashed_append_of_not_mem hfront.1, hpart]
  simp

/-! ## Literals -/

theorem cutQuotes_spec (cs : List Char) :
    (Literal.cutQuotes cs).1 ++ (Literal.cutQuotes cs).2.1 ++ (Literal.cutQuotes cs).2.2 = cs ∧
      ∀ c ∈ (Literal.cutQuotes cs).2.1, c = '\'' := by
  unfold Literal.cutQuotes
  simp only
  have hcut := (Workflow.cutEnd_spec cs).1
  generalize (Literal.cutEnd cs).1 = body at hcut ⊢
  have hquotes : ∀ c ∈ body.reverse.takeWhile (· == '\''), c = '\'' := fun c hc => by
    simpa using mem_takeWhile_imp hc
  refine ⟨?_, hquotes⟩
  -- a run of quotes is the same backwards
  have hrun : (body.reverse.takeWhile (· == '\'')).reverse = body.reverse.takeWhile (· == '\'') := by
    rw [eq_replicate_of_mem hquotes, reverse_replicate]
  have hbody : (body.reverse.dropWhile (· == '\'')).reverse ++ body.reverse.takeWhile (· == '\'') =
      body := by
    rw [← hrun, ← reverse_append, takeWhile_append_dropWhile, reverse_reverse]
  have htake {front quotes : List Char} (h : front ++ quotes = body) :
      body.take (body.length - quotes.length) = front := by
    rw [← h]
    simp
  rw [htake hbody, hbody, hcut]

theorem hashed_escapeEnd_iff (cs : List Char) :
    Hashed (unixEnds (Literal.escapeEnd cs)) ↔ Hashed (unixEnds cs) := by
  obtain ⟨hcut, hquotes⟩ := cutQuotes_spec cs
  unfold Literal.escapeEnd
  simp only
  generalize (Literal.cutQuotes cs).1 = front at hcut ⊢
  generalize (Literal.cutQuotes cs).2.1 = quotes at hcut hquotes ⊢
  generalize (Literal.cutQuotes cs).2.2 = tail at hcut ⊢
  by_cases hne : quotes = []
  · rw [hne, flatMap_nil, ← hcut, hne]
  · have hapart : ∀ c ∈ quotes, Apart c := fun c hc => hquotes c hc ▸ apart_quote
    have hescaped : ∀ c ∈ quotes.flatMap (fun _ => ['\\', '\'']), Apart c := by
      intro c hc
      obtain ⟨-, -, hc⟩ := mem_flatMap.mp hc
      rw [mem_cons, mem_singleton] at hc
      rcases hc with rfl | rfl
      · exact ⟨by decide, by decide, by decide⟩
      · exact apart_quote
    have hsome : quotes.flatMap (fun _ => ['\\', '\'']) ≠ [] := fun hnil =>
      hne (eq_nil_iff_forall_not_mem.mpr fun c hc => by simpa using flatMap_eq_nil_iff.mp hnil c hc)
    rw [← hcut, hashed_unixEnds_between hsome hescaped, hashed_unixEnds_between hne hapart]

theorem hashed_write_iff (s : String) :
    Hashed (unixEnds (Literal.write s).toList) ↔ Hashed (unixEnds s.toList) := by
  have hmark : ∀ c ∈ (if s.toList.contains '\\' then ['r'] else []), Apart c := by
    intro c hc
    split at hc
    · rw [mem_singleton.mp hc]
      exact ⟨by decide, by decide, by decide⟩
    · cases hc
  have hquoted (quotes cs : List Char) (hne : quotes ≠ []) (hquotes : ∀ c ∈ quotes, c = '\'') :
      Hashed (unixEnds ((if s.toList.contains '\\' then ['r'] else []) ++ quotes ++ cs ++ quotes)) ↔
        Hashed (unixEnds cs) := by
    have hapart : ∀ c ∈ quotes, Apart c := fun c hc => hquotes c hc ▸ apart_quote
    have hclosed := hashed_unixEnds_between hne hapart cs []
    rw [append_nil] at hclosed
    rw [append_assoc, append_assoc, hashed_unixEnds_append hmark, hashed_unixEnds_append hapart,
      hclosed]
    exact and_iff_left trivial
  rw [Literal.write, String.toList_ofList, Literal.writeChars]
  split
  next hempty =>
    rw [isEmpty_iff.mp hempty]
    exact iff_of_true (OneLine.hashed ⟨by decide, by decide⟩) trivial
  · simp only
    split
    · have hone := hquoted ['\''] s.toList (by simp) (by simp)
      simpa using hone
    · have hthree := hquoted ['\'', '\'', '\''] (Literal.escapeEnd s.toList) (by simp) (by simp)
      rw [hthree, hashed_escapeEnd_iff]

theorem hashed_ofValue_iff (v : Value) :
    Hashed (unixEnds (Literal.ofValue v).toList) ↔ Hashed (unixEnds v.text.toList) := by
  cases v with
  | str s => exact hashed_write_iff s
  | _ => rfl

end Source

def Value.IsDocumentValue : Value → Prop
  | .null | .bool _ | .int _ | .float _ | .str _ | .list _ | .record _ => True
  | _ => False

namespace Workflow

variable {texts : List String}

open Source

/-! ## Texts of arguments -/

theorem halts_ofValue {v : Value} (h : v.IsDocumentValue) : Halts (Literal.ofValue v).toList := by
  have hfeed : '\n' ∉ numberMarks := by decide
  have hreturn : '\r' ∉ numberMarks := by decide
  cases v with
  | null => exact OneLine.halts ⟨by decide, by decide⟩
  | bool b => exact OneLine.halts (by cases b <;> exact ⟨by decide, by decide⟩)
  | int n => exact OneLine.halts ⟨not_mem_intText rfl hfeed n, not_mem_intText rfl hreturn n⟩
  | float x => exact OneLine.halts ⟨not_mem_floatText rfl hfeed x, not_mem_floatText rfl hreturn x⟩
  | str s =>
    obtain ⟨front, hfront⟩ : ∃ front, Literal.writeChars s.toList = front ++ ['\''] := by
      unfold Literal.writeChars
      split
      · exact ⟨['\''], rfl⟩
      · simp only
        split
        · exact ⟨_, rfl⟩
        · exact ⟨_, (append_assoc _ ['\'', '\''] ['\'']).symm⟩
    rw [Literal.ofValue, Literal.write, String.toList_ofList, hfront]
    exact halts_concat apart_quote front
  | list items =>
    have htext : Literal.ofValue (.list items) = "[" ++ Value.shownItems items ++ "]" := rfl
    rw [htext, String.toList_append]
    exact halts_concat ⟨by decide, by decide, by decide⟩ _
  | record fields =>
    have htext : Literal.ofValue (.record fields) = "namespace(" ++ Value.shownFields fields ++ ")" := rfl
    rw [htext, String.toList_append]
    exact halts_concat ⟨by decide, by decide, by decide⟩ _
  | _ => cases h

theorem oneLine_of_isWordy {x : String} (h : IsWordy x) : OneLine x.toList :=
  ⟨fun hc => absurd (h '\n' hc) (by decide), fun hc => absurd (h '\r' hc) (by decide)⟩

theorem oneLine_joinTexts (h : ∀ t ∈ texts, OneLine t.toList) :
    OneLine (joinTexts texts).toList := by
  constructor <;> intro hc <;> rcases mem_joinTexts hc with hcomma | ⟨t, ht, hc⟩
  · exact absurd hcomma (by decide)
  · exact (h t ht).1 hc
  · exact absurd hcomma (by decide)
  · exact (h t ht).2 hc

theorem toList_joinTexts_cons_cons (t t' : String) (rest : List String) :
    (joinTexts (t :: t' :: rest)).toList =
      t.toList ++ [',', ' '] ++ (joinTexts (t' :: rest)).toList := by
  rw [joinTexts, joinTexts, String.toList_intercalate, String.toList_intercalate, map_cons,
    map_cons, intercalate_cons_cons]
  rfl

theorem hashed_joinTexts_iff :
    Hashed (unixEnds (joinTexts texts).toList) ↔ ∀ t ∈ texts, Hashed (unixEnds t.toList) := by
  have hcomma : ∀ c ∈ [',', ' '], Apart c := by
    intro c hc
    rw [mem_cons, mem_singleton] at hc
    rcases hc with rfl | rfl <;> exact ⟨by decide, by decide, by decide⟩
  induction texts with
  | nil => exact iff_of_true trivial nofun
  | cons t rest ih =>
    cases rest with
    | nil => simp [joinTexts]
    | cons t' rest =>
      rw [toList_joinTexts_cons_cons, hashed_unixEnds_between (by simp) hcomma, forall_mem_cons]
      exact and_congr_right fun _ => ih

theorem halts_joinTexts (h : ∀ t ∈ texts, Halts t.toList) :
    Halts (joinTexts texts).toList := by
  induction texts with
  | nil => exact ⟨nofun, nofun⟩
  | cons t rest ih =>
    rw [forall_mem_cons] at h
    cases rest with
    | nil => simpa [joinTexts] using h.1
    | cons t' rest =>
      rw [toList_joinTexts_cons_cons]
      exact (h.1.append (OneLine.halts ⟨by decide, by decide⟩)).append (ih h.2)

section Arguments

variable {d : Draft} {nodesInfo id : Value} {k : Sketch}

theorem Sketch.Of.oneLine_or_widget (hk : k.Of nodesInfo id d) (hd : d.HoldsVariables) {a : Argument}
    (ha : a ∈ k.targets.arguments) : OneLine a.text.toList ∨ ∃ v, a = .widget v := by
  cases a with
  | widget v => exact .inr ⟨v, rfl⟩
  | hole _ => exact .inl (oneLine_of_isWordy (isWordy_of_isVariable (.inl rfl)))
  | absent => exact .inl ⟨by decide, by decide⟩
  | held x _ _ => exact .inl (oneLine_of_isWordy (hk.isWordy_held hd ha))

theorem Sketch.Of.hashed_arguments_iff (hk : k.Of nodesInfo id d) (hd : d.HoldsVariables) :
    Hashed (unixEnds (joinTexts (k.targets.arguments.map Argument.text)).toList) ↔
      ∀ v, .widget v ∈ k.targets.arguments → Hashed (unixEnds v.text.toList) := by
  rw [hashed_joinTexts_iff, forall_mem_map]
  constructor
  · exact fun h v hv => (hashed_ofValue_iff v).mp (h (.widget v) hv)
  · intro h a ha
    rcases hk.oneLine_or_widget hd ha with hline | ⟨v, rfl⟩
    · exact hline.hashed
    · exact (hashed_ofValue_iff v).mpr (h v ha)

theorem Sketch.Of.halts_arguments (hk : k.Of nodesInfo id d) (hd : d.HoldsVariables)
    (hvalues : ∀ v, .widget v ∈ k.targets.arguments → v.IsDocumentValue) :
    Halts (joinTexts (k.targets.arguments.map Argument.text)).toList := by
  refine halts_joinTexts (forall_mem_map.mpr fun a ha => ?_)
  rcases hk.oneLine_or_widget hd ha with hline | ⟨v, rfl⟩
  · exact hline.halts
  · exact halts_ofValue (hvalues v ha)

end Arguments

/-! ## Statements of which no output is used -/

theorem of_run_assignOutputs_unused {id node : Value} {arguments : List Argument} {outputs : List Value}
    {d d' : Draft} {t : Targets} (hnode : node.field? "outputs" = some (.list outputs))
    (hunused : ∀ o ∈ outputs, isUsed o = .ok false)
    (h : (assignOutputs id node arguments).run d = (.ok t, d')) :
    t = ⟨arguments, List.replicate outputs.length "_", [], false⟩ := by
  obtain ⟨hnone, -⟩ | ⟨items, sorted, hitems, hsorted, hrun⟩ := assignOutputs_cases h
  · rw [hnode] at hnone
    cases hnone
  obtain rfl : outputs = items := by simpa [hnode] using hitems
  have hperm : sorted.Perm outputs := perm_of_sortOn hsorted
  -- every output adds one `_` and nothing else
  have hall := of_run_foldlM (fun done t' _ => t' = ⟨arguments, List.replicate done.length "_", [], false⟩)
    (fun done entry rest t₁ _ t₂ _ hitems ht₁ hstep => by
      have hmem : entry.1 ∈ outputs := by
        have hentry : entry ∈ sorted.zipIdx := hitems ▸ by simp
        exact hperm.mem_iff.mp (fst_mem_of_mem_zipIdx hentry)
      obtain ⟨-, rfl, -⟩ | ⟨hused, -⟩ := assignOutput_cases hstep
      · rw [ht₁, length_append, length_singleton, replicate_succ']
      · rw [hunused _ hmem] at hused
        cases hused)
    rfl hrun
  rw [hall, length_zipIdx, hperm.length_eq]

theorem Targets.toList_text_call_unused {t : Targets} (hne : t.names ≠ []) (hunused : t.used = false)
    (callee : String) : (t.call callee).text.toList =
      '#' :: ' ' :: (joinTexts t.names).toList ++ (assignMark ++ callee.toList ++ ['(']) ++
        ((joinTexts (t.arguments.map Argument.text)).toList ++ [')', '\n']) := by
  have hcommented : (t.call callee).commented = true := by simp [Targets.call, hne, hunused]
  have htargets : (t.call callee).targets.isEmpty = false := by simp [Targets.call, hne]
  rw [toList_text_call rfl, hcommented, htargets]
  simp [Targets.call, assignMark]

/-! ## Calls that hold a literal -/

theorem cutLiteralCall_append {front : List Char} (h : '=' ∉ front) (rest : List Char) :
    cutLiteralCall (front ++ literalCall ++ rest) = some (front, rest) := by
  induction front with
  | nil => rfl
  | cons c front ih =>
    rw [mem_cons, not_or] at h
    have hnone : after? literalCall (c :: front ++ literalCall ++ rest) = none := by
      rw [Option.eq_none_iff_forall_not_mem]
      intro rest' hafter
      have hcs := after?_eq_some_iff.mp hafter
      -- the second character of a literal call is the sign of equality
      cases front with
      | nil => exact absurd (cons.inj (cons.inj hcs).2).1 (by decide)
      | cons c' front =>
        have hsign : c' = '=' := (cons.inj (cons.inj hcs).2).1
        exact h.2 (hsign ▸ mem_cons_self)
    rw [cons_append, cons_append, cutLiteralCall, ← cons_append, ← cons_append, hnone,
      ih h.2]
    rfl

theorem trimRight_close (cs : List Char) : Text.trimRight (cs ++ [')', '\n']) = cs ++ [')'] := by
  have hblank : Text.isBlank '\n' = true := by decide
  have hclose : Text.isBlank ')' = false := by decide
  simp [Text.trimRight, hblank, hclose]

theorem toList_of_literalOf? {text line : String} {front part : List Char} (hfront : '=' ∉ front)
    (htext : text.toList = front ++ literalCall ++ (part ++ [')', '\n']))
    (h : literalOf? text = some line) : line.toList = front ++ assignMark ++ part ++ ['\n'] := by
  unfold literalOf? at h
  rw [htext, cutLiteralCall_append hfront] at h
  simp only [trimRight_close] at h
  split at h
  · obtain rfl := Option.some.inj h
    simp [assignMark]
  · cases h

section Dead

variable {d d' : Draft} {nodesInfo id : Value} {k : Sketch} {type : String}

theorem Sketch.Of.callee_of_type (hk : k.Of nodesInfo id d) (htype : k.type = .str type) :
    k.callee = Identifier.classId type := by
  obtain ⟨name, hname, hcallee⟩ := hk.name
  rw [htype] at hname
  rw [hcallee, ← Except.ok.inj hname]

theorem Sketch.Of.toList_line (hk : k.Of nodesInfo id d) (hd : d.HoldsVariables)
    (hmode : (k.mode == bypassMode) = false) (htype : k.type = .str type) (hne : k.targets.names ≠ [])
    (hunused : k.targets.used = false) {c : Contribution}
    (hc : contribute nodesInfo id k.node k.mode k.type k.callee k.named k.targets = .ok c)
    (hline : c.line ≠ "") : ∃ front last, OneLine front ∧
      c.line.toList = '#' :: (' ' :: front ++
        (joinTexts (k.targets.arguments.map Argument.text)).toList ++ last) ++ ['\n'] ∧
      (last = [')'] ∨ last = []) := by
  have hnames : OneLine (joinTexts k.targets.names).toList :=
    oneLine_joinTexts fun x hx => oneLine_of_isWordy (hk.isWordy_names hd hx)
  have htext := Targets.toList_text_call_unused hne hunused k.callee
  unfold contribute at hc
  rw [statementOf_sketch k hmode] at hc
  obtain ⟨choice, -, hc⟩ := ok_of_bind hc
  obtain ⟨line, heliminate, hc⟩ := ok_of_bind hc
  obtain rfl := Except.ok.inj hc
  rcases eliminate_cases heliminate with hempty | hkept | ⟨hliteral, hshorter⟩
  · exact absurd hempty hline
  · refine ⟨(joinTexts k.targets.names).toList ++ (assignMark ++ k.callee.toList ++ ['(']), [')'],
      hnames.append ?_, ?_, .inl rfl⟩
    · exact (OneLine.append ⟨by decide, by decide⟩ (oneLine_of_isWordy hk.isWordy_callee)).append
        ⟨by decide, by decide⟩
    · rw [hkept, Sketch.statement, htext]
      simp
  · have hcallee : k.callee = "PrimitiveNode" := by
      have hprimitive : type = "PrimitiveNode" := by
        rw [subjectOf, htype, Value.str_beq_str] at hliteral
        simpa using hliteral
      rw [hk.callee_of_type htype, hprimitive]
      decide +kernel
    have hsplit : k.statement.text.toList = '#' :: ' ' :: (joinTexts k.targets.names).toList ++ literalCall ++
        ((joinTexts (k.targets.arguments.map Argument.text)).toList ++ [')', '\n']) := by
      rw [Sketch.statement, htext, hcallee]
      rfl
    have hfront : '=' ∉ '#' :: ' ' :: (joinTexts k.targets.names).toList := by
      rw [List.mem_cons, List.mem_cons, not_or, not_or]
      refine ⟨by decide, by decide, fun hmem => ?_⟩
      rcases mem_joinTexts hmem with hcomma | ⟨x, hx, hmem⟩
      · exact absurd hcomma (by decide)
      · exact absurd (hk.isWordy_names hd hx '=' hmem) (by decide)
    refine ⟨(joinTexts k.targets.names).toList ++ assignMark, [], hnames.append ⟨by decide, by decide⟩, ?_,
      .inr rfl⟩
    rw [toList_of_literalOf? hfront hsplit hshorter]
    simp

end Dead

namespace Transpiler

/-- The statement of a node with outputs of which none is used, if the passes leave any of it. It
starts as a comment, and all its lines do if and only if a hash stands behind every line end in the
widget values of the node. -/
theorem commented_out_iff {workflow nodesInfo id node : Value} {t : Transpiler} {ids outputs : List Value}
    {cs : List Contribution} {c : Contribution} {d d' : Draft} {type : String}
    (ht : (openWorkflow workflow nodesInfo).2 = .ok t)
    (hrun : (emitAll nodesInfo ids).run ⟨t.graph, []⟩ = (.ok cs, d))
    (hemit : (emit nodesInfo id).run d = (.ok c, d')) (hnode : d.graph.nodeOf id = .ok node)
    (hmode : node.field "mode" = .ok (.int 0)) (htype : node.field "type" = .ok (.str type))
    (houtputs : node.field? "outputs" = some (.list outputs)) (hsome : outputs ≠ [])
    (hunused : ∀ o ∈ outputs, o.field? "links" = some .null ∨ o.field? "links" = some (.list []))
    (hvalues : ∀ v, .widget v ∈ c.targets.arguments → v.IsDocumentValue) (hline : c.line ≠ "") :
    c.line.toList.head? = some '#' ∧
      ((∀ line ∈ Source.lines c.line, line.head? = some '#') ↔
        ∀ v, .widget v ∈ c.targets.arguments → Hashed (unixEnds v.text.toList)) := by
  have hd : d.HoldsVariables := (holdsVariables_of_isFresh (isFresh_openWorkflow ht) []).emitAll hrun
  obtain ⟨k, hk, hcontribute⟩ := exists_sketch hemit
  obtain rfl : k.node = node := Except.ok.inj (hk.node.symm.trans hnode)
  have hmode' : (k.mode == bypassMode) = false := Except.ok.inj (hk.mode.symm.trans hmode) ▸ rfl
  have htype' : k.type = .str type := Except.ok.inj (hk.type.symm.trans htype)
  obtain ⟨arguments, d₁, d₂, htargets⟩ := hk.targets
  have htargets' := of_run_assignOutputs_unused houtputs (fun o ho => by
    rcases hunused o ho with hnull | hnil
    · rw [isUsed, field_eq_ok_iff.mpr hnull]
      rfl
    · rw [isUsed, field_eq_ok_iff.mpr hnil]
      rfl) htargets
  obtain ⟨-, hsame, -⟩ := contribute_spec hcontribute
  rw [hsame] at hvalues ⊢
  obtain ⟨front, last, hfront, htext, hlast⟩ := hk.toList_line hd hmode' htype'
    (by simpa [htargets'] using hsome) (by rw [htargets']) hcontribute hline
  have hhead : c.line.toList.head? = some '#' := by
    rw [htext]
    rfl
  have hblank : OneLine ([' '] ++ front) := OneLine.append ⟨by decide, by decide⟩ hfront
  refine ⟨hhead, (Source.forall_lines_iff htext hblank ?_).trans (hk.hashed_arguments_iff hd)⟩
  exact hlast.imp_right fun hnil => ⟨hnil, hk.halts_arguments hd hvalues⟩

def sayTypes : Value :=
  .dict [("Say", .dict [("input", .dict [("required", .dict [("text", .list [.str "STRING"])])]),
    ("output", .list [.str "STRING"]), ("output_name", .list [.str "STRING"])])]

def unheardWorkflow : Value :=
  .dict [("nodes", .list [.dict [("id", .int 1), ("type", .str "Say"), ("pos", .list [.int 0, .int 0]),
      ("mode", .int 0), ("outputs", .list [.dict [("name", .str "STRING"), ("type", .str "STRING"),
        ("links", .null)]]), ("widgets_values", .list [.str "one\ntwo"])]]),
    ("links", .list []), ("version", version)]

def unheardText : Contribution :=
  let arguments : List Argument := [.widget (.str "one\ntwo")]
  ⟨.int 1, ⟨arguments, ["_"], [], false⟩, some ⟨["_"], .call "Say" arguments, true⟩,
    "# _ = Say('''one\ntwo''')\n"⟩

/-- The second line of the text is no comment. -/
theorem commented_out_iff_unheardWorkflow :
    ∃ t d', (openWorkflow unheardWorkflow sayTypes).2 = .ok t ∧
      (emit sayTypes (.int 1)).run ⟨t.graph, []⟩ = (.ok unheardText, d') ∧
      ¬ ∀ line ∈ Source.lines unheardText.line, line.head? = some '#' := by
  obtain ⟨t, d', node, ht, hemit, hnode, hmode, htype, houtputs⟩ : ∃ t d' node,
      (openWorkflow unheardWorkflow sayTypes).2 = .ok t ∧
      (emit sayTypes (.int 1)).run ⟨t.graph, []⟩ = (.ok unheardText, d') ∧
      t.graph.nodeOf (.int 1) = .ok node ∧ node.field "mode" = .ok (.int 0) ∧
      node.field "type" = .ok (.str "Say") ∧ node.field? "outputs" = some (.list [.record
        [("name", .str "STRING"), ("type", .str "STRING"), ("links", .null)]]) :=
    ⟨_, _, _, rfl, rfl, rfl, rfl, rfl, rfl⟩
  have hfirst : (emitAll sayTypes []).run ⟨t.graph, []⟩ = (.ok [], ⟨t.graph, []⟩) := rfl
  have hiff := (commented_out_iff ht hfirst hemit hnode hmode htype houtputs (by simp)
    (fun o ho => .inl (List.mem_singleton.mp ho ▸ rfl))
    (fun v hv => by cases List.mem_singleton.mp hv; trivial) (by decide)).2
  refine ⟨t, d', ht, hemit, fun hlines => ?_⟩
  have hhashed := hiff.mp hlines (.str "one\ntwo") List.mem_cons_self
  exact absurd (hhashed.2.2.2.1 rfl) (by decide)

end Transpiler

end Workflow

end Flowscript
