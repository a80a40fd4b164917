import Flowscript.Workflow.Statement
import Flowscript.Proofs.Identifier
import Flowscript.Proofs.Table
import Flowscript.Proofs.Workflow.Elimination
import Mathlib.Data.List.Infix

/-!
# Statements that survive the passes

The passes look at the text of a statement. A call is taken for the move of a variable to itself
only if the mark of an assignment stands among its arguments; a call without one, of a node type
that no pass is made for, is left as it is.
-/

namespace Flowscript

open List

namespace Workflow

variable {cs : List Char}

def assignMark : List Char := [' ', '=', ' ']

theorem infix_or_of_append_cons {p l r : List Char} {c : Char} (hc : c ∉ p)
    (h : p <:+: l ++ c :: r) : p <:+: l ∨ p <:+: r := by
  obtain ⟨front, back, h⟩ := h
  rcases append_eq_append_iff.mp h with ⟨as, hl, -⟩ | ⟨bs, hfront, hr⟩
  · exact .inl ⟨front, as, hl.symm⟩
  cases bs with
  | nil => exact .inl ⟨front, [], by simpa using hfront⟩
  | cons b bs =>
    obtain ⟨rfl, hback⟩ := cons.inj hr
    rcases append_eq_append_iff.mp hfront with ⟨as, -, hp⟩ | ⟨cs, -, hp⟩
    · exact absurd (hp ▸ by simp) hc
    cases cs with
    | nil => exact absurd (show c ∈ p by rw [← nil_append p, ← hp]; simp) hc
    | cons d cs =>
      obtain ⟨-, rfl⟩ := cons.inj hp
      exact .inr ⟨cs, back, hback.symm⟩

theorem append_cons_inj {l l' r r' : List Char} {c : Char} (hl : c ∉ l) (hl' : c ∉ l')
    (h : l ++ c :: r = l' ++ c :: r') : l = l' ∧ r = r' := by
  rcases append_eq_append_iff.mp h with ⟨as, hl'', hr⟩ | ⟨as, hl'', hr⟩
  all_goals
    cases as with
    | nil => simp_all
    | cons a as =>
      obtain ⟨rfl, -⟩ := cons.inj hr
      simp_all

def Unmarked (cs : List Char) : Prop := ¬ assignMark <:+: ' ' :: cs

theorem unmarked_of_blank_not_mem (h : ' ' ∉ cs) : Unmarked cs := by
  rintro ⟨front, back, hcs⟩
  cases front with
  | nil =>
    obtain ⟨-, hcs⟩ := cons.inj hcs
    exact h (hcs ▸ by simp)
  | cons c front =>
    obtain ⟨-, hcs⟩ := cons.inj hcs
    exact h (hcs ▸ by simp [assignMark])

theorem not_infix_joinTexts {texts : List String} (h : ∀ t ∈ texts, Unmarked t.toList) :
    ¬ assignMark <:+: ' ' :: ((joinTexts texts).toList ++ [')', '\n']) := by
  rw [joinTexts, String.toList_intercalate]
  induction texts with
  | nil => decide
  | cons t rest ih =>
    have hrest := ih fun t' ht' => h t' (List.mem_cons_of_mem _ ht')
    intro hpart
    cases rest with
    | nil =>
      have hsplit : assignMark <:+: (' ' :: t.toList) ++ ')' :: ['\n'] := by simpa using hpart
      rcases infix_or_of_append_cons (by decide) hsplit with hleft | hright
      · exact h t List.mem_cons_self hleft
      · exact absurd hright (by decide)
    | cons t' rest =>
      rw [List.map_cons, List.map_cons, List.intercalate_cons_cons, ← List.map_cons] at hpart
      have hsplit : assignMark <:+: (' ' :: t.toList) ++
          ',' :: ' ' :: (", ".toList.intercalate ((t' :: rest).map String.toList) ++ [')', '\n']) := by
        simpa using hpart
      rcases infix_or_of_append_cons (by decide) hsplit with hleft | hright
      · exact h t List.mem_cons_self hleft
      · exact hrest hright

def numberMarks : List Char := ['-', '+', '.', 'e', 'i', 'n', 'f', 'a']

section Numbers

variable {c : Char} (hdigit : c.isDigit = false) (hmark : c ∉ numberMarks)

include hdigit

theorem not_mem_toDigits (n : Nat) : c ∉ Nat.toDigits 10 n := fun h => by
  rw [Nat.isDigit_of_mem_toDigits (by decide) (by decide) h] at hdigit
  cases hdigit

include hmark

theorem not_mem_of_marks {text : String}
    (h : (text.toList.all fun c => c.isDigit || numberMarks.contains c) = true) : c ∉ text.toList := by
  intro hc
  have hall := all_eq_true.mp h c hc
  rw [hdigit, Bool.false_or] at hall
  exact hmark (contains_iff_mem.mp hall)

theorem not_mem_intText (n : Int) : c ∉ (Value.intText n).toList := by
  unfold Value.intText
  rw [String.toList_append, mem_append, not_or, String.toList_ofList]
  refine ⟨not_mem_of_marks hdigit hmark ?_, not_mem_toDigits hdigit _⟩
  split <;> decide

theorem not_mem_place (digits : Decimal.Digits) : c ∉ (Value.layout.place digits).toList := by
  have hdigits := not_mem_toDigits hdigit digits.digits
  have hzero : c ≠ '0' := fun h => by
    rw [h] at hdigit
    cases hdigit
  simp only [numberMarks, mem_cons, not_mem_nil, or_false, not_or] at hmark
  obtain ⟨hminus, hplus, hpoint, he, -⟩ := hmark
  unfold Decimal.Layout.place
  simp only
  split
  · split
    · simp [hdigits, hzero, hpoint]
    · split
      · simp [hdigits, hzero, hpoint, Value.layout]
      · intro h
        simp only [String.toList_ofList, mem_append, mem_singleton] at h
        rcases h with (h | h) | h
        · exact hdigits (mem_of_mem_take h)
        · exact hpoint h
        · exact hdigits (mem_of_mem_drop h)
  · simp only [String.toList_append, mem_append, not_or, String.toList_ofList]
    refine ⟨⟨⟨?_, by simp [Value.layout, he]⟩, by split <;> simp [hminus, hplus]⟩, by simp [hzero],
      not_mem_toDigits hdigit _⟩
    cases htext : Nat.toDigits 10 digits.digits with
    | nil => simp
    | cons d rest =>
      rw [htext, mem_cons, not_or] at hdigits
      cases rest with
      | nil => simpa using hdigits.1
      | cons d' rest => simpa [hpoint] using hdigits

theorem not_mem_floatText (x : Binary64) : c ∉ (x.text Value.layout).toList := by
  have hsign (negative : Bool) : c ∉ (if negative then "-" else "").toList :=
    not_mem_of_marks hdigit hmark (by cases negative <;> decide)
  unfold Binary64.text
  simp only
  split
  · exact not_mem_of_marks hdigit hmark (by decide)
  · rw [String.toList_append, mem_append, not_or]
    exact ⟨hsign _, not_mem_of_marks hdigit hmark (by decide)⟩
  · rw [String.toList_append, String.toList_append, mem_append, mem_append, not_or, not_or]
    exact ⟨⟨hsign _, not_mem_of_marks hdigit hmark (by decide)⟩,
      not_mem_of_marks hdigit hmark (by decide)⟩
  · rw [String.toList_append, mem_append, not_or]
    exact ⟨hsign _, not_mem_place hdigit hmark _⟩

end Numbers

theorem blank_mem_of_infix (h : assignMark <:+: cs) : ' ' ∈ cs :=
  h.subset (by decide)

theorem cutEnd_spec (cs : List Char) :
    (Literal.cutEnd cs).1 ++ (Literal.cutEnd cs).2 = cs ∧ ' ' ∉ (Literal.cutEnd cs).2 := by
  unfold Literal.cutEnd
  split
  next hlast => exact ⟨dropLast_append_getLast? _ hlast, by simp⟩
  · exact ⟨append_nil cs, by simp⟩

theorem not_infix_escapeEnd (h : ¬ assignMark <:+: cs) :
    ¬ assignMark <:+: Literal.escapeEnd cs := by
  obtain ⟨hcut, htail⟩ := cutEnd_spec cs
  unfold Literal.escapeEnd Literal.cutQuotes
  simp only
  generalize (Literal.cutEnd cs).1 = body at hcut
  generalize (Literal.cutEnd cs).2 = tail at hcut htail
  generalize body.reverse.takeWhile (· == '\'') = quotes
  cases quotes with
  | nil => simpa [hcut] using h
  | cons q quotes =>
    -- the first escape cuts off the rest, in which there are no blanks
    intro hpart
    have hsplit : assignMark <:+: body.take (body.length - (q :: quotes).length) ++
        '\\' :: ('\'' :: quotes.flatMap (fun _ => ['\\', '\'']) ++ tail) := by
      simpa using hpart
    rcases infix_or_of_append_cons (by decide) hsplit with hleft | hright
    · have hbody : body <+: cs := ⟨tail, hcut⟩
      exact h ((hleft.trans ( take_prefix _ _).isInfix).trans hbody.isInfix)
    · have hblank := blank_mem_of_infix hright
      simp [htail] at hblank

theorem unmarked_write {s : String} (h : ¬ assignMark <:+: s.toList) :
    Unmarked (Literal.write s).toList := by
  have hquote : '\'' ∉ assignMark := by decide
  have hmark : ¬ assignMark <:+: ' ' :: (if s.toList.contains '\\' then ['r'] else []) := by
    split <;> decide
  rw [Literal.write, String.toList_ofList, Literal.writeChars]
  simp only
  generalize (if s.toList.contains '\\' then ['r'] else []) = mark at hmark
  intro hpart
  split at hpart
  · exact absurd hpart (by decide)
  · split at hpart
    · have hsplit : assignMark <:+: (' ' :: mark) ++ '\'' :: (s.toList ++ '\'' :: []) := by
        simpa using hpart
      rcases infix_or_of_append_cons hquote hsplit with hleft | hright
      · exact hmark hleft
      · rcases infix_or_of_append_cons hquote hright with hleft | hright
        · exact h hleft
        · exact absurd hright (by decide)
    · have hsplit : assignMark <:+: (' ' :: mark) ++ '\'' :: ([] ++ '\'' :: ([] ++ '\'' ::
          (Literal.escapeEnd s.toList ++ '\'' :: ['\'', '\'']))) := by
        simpa using hpart
      rcases infix_or_of_append_cons hquote hsplit with hleft | hright
      · exact hmark hleft
      rcases infix_or_of_append_cons hquote hright with hleft | hright
      · exact absurd hleft (by decide)
      rcases infix_or_of_append_cons hquote hright with hleft | hright
      · exact absurd hleft (by decide)
      rcases infix_or_of_append_cons hquote hright with hleft | hright
      · exact not_infix_escapeEnd h hleft
      · exact absurd hright (by decide)

end Workflow

/-- A number, a truth value, null, or a text without the mark of an assignment. -/
def Value.IsPlain : Value → Prop
  | .null | .bool _ | .int _ | .float _ => True
  | .str s => ¬ Workflow.assignMark <:+: s.toList
  | _ => False

namespace Workflow

variable {cs : List Char} {text : String}

theorem unmarked_ofValue {v : Value} (h : v.IsPlain) : Unmarked (Literal.ofValue v).toList := by
  cases v with
  | str s => exact unmarked_write h
  | null => exact unmarked_of_blank_not_mem (by decide)
  | bool b => exact unmarked_of_blank_not_mem (by cases b <;> decide)
  | int n => exact unmarked_of_blank_not_mem (not_mem_intText rfl (by decide) n)
  | float x => exact unmarked_of_blank_not_mem (not_mem_floatText rfl (by decide) x)
  | _ => cases h

theorem after?_eq_some_iff {start rest : List Char} :
    after? start cs = some rest ↔ cs = start ++ rest := by
  unfold after?
  constructor
  · intro h
    split at h
    next hstart =>
      cases h
      exact (prefix_iff_eq_append.mp ( isPrefixOf_iff_prefix.mp hstart)).symm
    · cases h
  · rintro rfl
    rw [if_pos ( isPrefixOf_iff_prefix.mpr (prefix_append start rest)), drop_left]

theorem assigns_iff {x : List Char} : assigns x cs = true ↔
    x ≠ [] ∧ ∃ rest, cs = assignMark ++ x ++ rest ∧ rest.all Text.isBlank = true := by
  unfold assigns
  rw [Bool.and_eq_true, Bool.not_eq_true', isEmpty_eq_false_iff]
  refine and_congr_right fun _ => ⟨fun h => ?_, ?_⟩
  · split at h
    next rest hrest =>
      obtain ⟨mid, hmid, hafter⟩ := Option.bind_eq_some_iff.mp hrest
      rw [after?_eq_some_iff] at hmid hafter
      exact ⟨rest, by rw [hmid, hafter, append_assoc]; rfl, h⟩
    · cases h
  · rintro ⟨rest, rfl, hblank⟩
    have hmark : after? " = ".toList (assignMark ++ x ++ rest) = some (x ++ rest) :=
      after?_eq_some_iff.mpr (append_assoc _ _ _)
    rw [hmark, Option.bind_some, after?_eq_some_iff.mpr rfl]
    exact hblank

theorem movesFrom_iff {read : List Char} : movesFrom read cs = true ↔
    ∃ y rest, '\n' ∉ y ∧ read.reverse ++ y ≠ [] ∧
      cs = y ++ assignMark ++ (read.reverse ++ y) ++ rest ∧ rest.all Text.isBlank = true := by
  induction cs generalizing read with
  | nil =>
    refine ⟨fun h => (Bool.false_ne_true h).elim, ?_⟩
    rintro ⟨y, rest, -, -, heq, -⟩
    simp [assignMark] at heq
  | cons c cs ih =>
    rw [movesFrom, Bool.or_eq_true, Bool.and_eq_true, bne_iff_ne, assigns_iff, ih]
    constructor
    · rintro (⟨hne, rest, hcs, hblank⟩ | ⟨hline, y, rest, hy, hne, rfl, hblank⟩)
      · exact ⟨[], rest, not_mem_nil, by simpa using hne, by simpa using hcs, hblank⟩
      · refine ⟨c :: y, rest, ?_, by simp, by simp, hblank⟩
        rw [mem_cons, not_or]
        exact ⟨hline.symm, hy⟩
    · rintro ⟨y, rest, hy, hne, hcs, hblank⟩
      cases y with
      | nil => exact .inl ⟨by simpa using hne, rest, by simpa using hcs, hblank⟩
      | cons d y =>
        obtain ⟨rfl, rfl⟩ := cons.inj hcs
        rw [mem_cons, not_or] at hy
        exact .inr ⟨Ne.symm hy.1, y, rest, hy.2, by simp, by simp, hblank⟩

/-- A text of the form `x = x`, as a comment or not, with blanks behind it; `x` stays on its line. -/
def ReadsAsMove (text : String) : Prop :=
  ∃ mark x rest, (mark = [] ∨ mark = ['#', ' ']) ∧ x ≠ [] ∧ '\n' ∉ x ∧
    text.toList = mark ++ (x ++ assignMark ++ x ++ rest) ∧ rest.all Text.isBlank = true

theorem movesToItself_iff : movesToItself text = true ↔ ReadsAsMove text := by
  have hform (cs : List Char) : movesFrom [] cs = true ↔ ∃ x rest, x ≠ [] ∧ '\n' ∉ x ∧
      cs = x ++ assignMark ++ x ++ rest ∧ rest.all Text.isBlank = true := by
    rw [movesFrom_iff]
    refine exists_congr fun x => exists_congr fun rest => ?_
    rw [reverse_nil, nil_append]
    exact and_left_comm
  have hmark {cs rest : List Char} : after? "# ".toList cs = some rest ↔ cs = ['#', ' '] ++ rest :=
    after?_eq_some_iff
  unfold movesToItself uncommented
  constructor
  · intro h
    split at h
    next rest hafter =>
      simp only [any_cons, any_nil, Bool.or_false, Bool.or_eq_true, hform] at h
      rcases h with ⟨x, blanks, hne, hline, heq, hblank⟩ | ⟨x, blanks, hne, hline, heq, hblank⟩
      · exact ⟨['#', ' '], x, blanks, .inr rfl, hne, hline, heq ▸ hmark.mp hafter, hblank⟩
      · exact ⟨[], x, blanks, .inl rfl, hne, hline, heq, hblank⟩
    · simp only [any_cons, any_nil, Bool.or_false, hform] at h
      obtain ⟨x, blanks, hne, hline, heq, hblank⟩ := h
      exact ⟨[], x, blanks, .inl rfl, hne, hline, heq, hblank⟩
  · rintro ⟨mark, x, blanks, rfl | rfl, hne, hline, heq, hblank⟩
    · have hmoves : movesFrom [] text.toList = true := (hform _).mpr ⟨x, blanks, hne, hline, heq, hblank⟩
      split <;> simp [hmoves]
    · rw [hmark.mpr heq]
      have hmoves := (hform _).mpr ⟨x, blanks, hne, hline, rfl, hblank⟩
      simp only [any_cons, hmoves, Bool.true_or]

/-- A text is not taken for a move if the mark of an assignment stands only before its first
bracket: the bracket would have to come again, with a mark in between. -/
theorem not_movesFrom {front back : List Char} (hfront : '(' ∉ front)
    (hback : ¬ assignMark <:+: back) : movesFrom [] (front ++ '(' :: back) = false := by
  by_contra hmoves
  obtain ⟨x, rest, -, -, heq, hblank⟩ := movesFrom_iff.mp (Bool.not_eq_false _ ▸ hmoves)
  rw [List.reverse_nil, List.nil_append] at heq
  have hmem : '(' ∈ x := by
    have hin : '(' ∈ x ++ assignMark ++ x ++ rest := heq ▸ by simp
    simp only [List.mem_append] at hin
    rcases hin with ((hin | hin) | hin) | hin
    · exact hin
    · exact absurd hin (by decide)
    · exact hin
    · exact absurd (List.all_eq_true.mp hblank '(' hin) (by decide)
  obtain ⟨before, behind, hx, hbefore⟩ := List.eq_append_cons_of_mem hmem
  have hsplit : front ++ '(' :: back = before ++ '(' :: (behind ++ assignMark ++ x ++ rest) := by
    rw [heq, hx]
    simp
  obtain ⟨-, hback'⟩ := append_cons_inj hfront hbefore hsplit
  exact hback ⟨behind, x ++ rest, by simp [hback']⟩

theorem not_movesToItself {statement : String} {front back : List Char}
    (hs : statement.toList = front ++ '(' :: back) (hfront : '(' ∉ front)
    (hback : ¬ assignMark <:+: back) : movesToItself statement = false := by
  unfold movesToItself uncommented
  rw [hs]
  split
  next rest hafter =>
    obtain ⟨front', rfl, hrest⟩ : ∃ front', front = "# ".toList ++ front' ∧
        rest = front' ++ '(' :: back := by
      rcases List.append_eq_append_iff.mp (after?_eq_some_iff.mp hafter) with
        ⟨bs, hstart, hbs⟩ | ⟨as, hfront', hrest⟩
      · cases bs with
        | nil => exact ⟨[], by simpa using hstart.symm, by simpa using hbs.symm⟩
        | cons b bs =>
          obtain ⟨rfl, -⟩ := List.cons.inj hbs
          exact absurd (show '(' ∈ "# ".toList by rw [hstart]; simp) (by decide)
      · exact ⟨as, hfront', hrest⟩
    have hfront' : '(' ∉ front' := fun h => hfront (List.mem_append_right _ h)
    simp only [List.any_cons, List.any_nil, Bool.or_false, Bool.or_eq_false_iff]
    exact ⟨hrest ▸ not_movesFrom hfront' hback, not_movesFrom hfront hback⟩
  · simpa using not_movesFrom hfront hback

def passTypes : List String :=
  rerouteTypes ++ ["PrimitiveNode"] ++ switches.map Switch.nodeType ++
    multiplexers.map Multiplexer.nodeType

/-- The node types that are treated in some way of their own. -/
def specialTypes : List String :=
  rerouteTypes ++ ["PrimitiveNode", "Note"] ++ switches.map Switch.nodeType ++
    multiplexers.map Multiplexer.nodeType

def IsOrdinary (type : String) : Prop := type ∉ specialTypes

instance (type : String) : Decidable (IsOrdinary type) := inferInstanceAs (Decidable (type ∉ specialTypes))

theorem IsOrdinary.not_mem_passTypes {type : String} (h : IsOrdinary type) : type ∉ passTypes := by
  simp only [IsOrdinary, specialTypes, passTypes, mem_append, mem_cons, not_mem_nil,
    or_false, not_or] at h ⊢
  exact ⟨⟨⟨h.1.1.1, h.1.1.2.1⟩, h.1.2⟩, h.2⟩

theorem typeIn_str (names : List String) (type : String) :
    typeIn names (.str type) = names.contains type := by
  unfold typeIn
  induction names with
  | nil => rfl
  | cons n rest ih => rw [any_cons, ih, Value.str_beq_str, contains_cons]

theorem runPasses_of_keeps {subject : Subject} {passes : List Pass}
    (hp : ∀ pass ∈ passes, pass subject text = .ok text) (hne : text ≠ "") :
    runPasses subject passes text = .ok text := by
  induction passes with
  | nil => rfl
  | cons pass rest ih =>
    rw [runPasses, hp pass mem_cons_self]
    have hempty : ¬ text.isEmpty = true := by simpa using hne
    change (if text.isEmpty then .ok "" else runPasses subject rest text) = .ok text
    rw [if_neg hempty]
    exact ih fun p hmem => hp p (mem_cons_of_mem _ hmem)

theorem mem_joinTexts {texts : List String} {c : Char} (h : c ∈ (joinTexts texts).toList) :
    c ∈ ", ".toList ∨ ∃ t ∈ texts, c ∈ t.toList := by
  rw [joinTexts, String.toList_intercalate] at h
  induction texts with
  | nil => cases h
  | cons t rest ih =>
    cases rest with
    | nil => exact .inr ⟨t, mem_cons_self, by simpa using h⟩
    | cons t' rest =>
      rw [map_cons, map_cons, intercalate_cons_cons, ← map_cons] at h
      simp only [mem_append] at h
      rcases h with (h | h) | h
      · exact .inr ⟨t, mem_cons_self, h⟩
      · exact .inl h
      · exact (ih h).imp_right fun ⟨u, hu, hc⟩ => ⟨u, mem_cons_of_mem _ hu, hc⟩

theorem toList_text_call {s : Statement} {callee : String} {arguments : List Argument}
    (hs : s.expression = .call callee arguments) :
    s.text.toList = ((if s.commented then "# " else "") ++
        (if s.targets.isEmpty then "" else joinTexts s.targets ++ " = ") ++ callee).toList ++
      '(' :: ((joinTexts (arguments.map Argument.text)).toList ++ [')', '\n']) := by
  have htargets : targetList s.targets false = joinTexts s.targets := by simp [targetList]
  rw [Statement.text, hs, htargets]
  simp [Expression.text]

theorem eliminate_of_not_mem {subject : Subject} {type : String} (htype : subject.type = .str type)
    (hpass : type ∉ passTypes) (hchosen : subject.chosen = false) (hne : text ≠ "") :
    eliminate subject text = .ok (if movesToItself text then "" else text) := by
  simp only [passTypes, mem_append, mem_singleton, not_or] at hpass
  obtain ⟨⟨⟨hreroute, hliteral⟩, hswitch⟩, -⟩ := hpass
  have hfirst : dropReroute subject text = .ok text := by
    simp [dropReroute, htype, typeIn_str, hreroute]
  cases hmoves : movesToItself text with
  | true =>
    have hempty : text.isEmpty = false := by simpa using hne
    simp only [eliminate, passes, runPasses, hfirst, ok_bind, hempty, dropMove, hmoves, if_true]
    rfl
  | false =>
    refine runPasses_of_keeps (fun pass hpass => ?_) hne
    simp only [passes, mem_cons, not_mem_nil, or_false] at hpass
    rcases hpass with rfl | rfl | rfl | rfl | rfl
    · exact hfirst
    · simp [dropMove, hmoves]
    · simp [inlineLiteral, htype, hliteral]
    · have hnone : (switches.find? fun w => type == w.nodeType) = none := by
        rw [find?_eq_none]
        intro w hw
        rw [beq_iff_eq]
        exact fun h => hswitch (mem_map.mpr ⟨w, hw, h.symm⟩)
      simp [dropSwitchedOff, htype, Value.hashable, hnone]
    · simp [dropMultiplexer, hchosen]

theorem Statement.text_ne_empty (s : Statement) : s.text ≠ "" := by
  intro h
  have hlast : '\n' ∈ s.text.toList := by simp [Statement.text]
  rw [h] at hlast
  cases hlast

theorem not_movesToItself_call {s : Statement} {callee : String} {arguments : List Argument}
    (hs : s.expression = .call callee arguments) (htargets : ∀ x ∈ s.targets, '(' ∉ x.toList)
    (hcallee : '(' ∉ callee.toList) (harguments : ∀ a ∈ arguments, Unmarked a.text.toList) :
    movesToItself s.text = false := by
  refine not_movesToItself (toList_text_call hs) (fun hfront => ?_) fun hpart => ?_
  · rw [String.toList_append, String.toList_append, List.mem_append, List.mem_append] at hfront
    rcases hfront with (hmark | hlist) | hname
    · split at hmark <;> exact absurd hmark (by decide)
    · split at hlist
      · exact absurd hlist (by decide)
      · rw [String.toList_append, List.mem_append] at hlist
        rcases hlist with hlist | hmark
        · rcases mem_joinTexts hlist with hcomma | ⟨x, hx, hin⟩
          · exact absurd hcomma (by decide)
          · exact htargets x hx hin
        · exact absurd hmark (by decide)
    · exact hcallee hname
  · refine not_infix_joinTexts (fun t ht => ?_) (hpart.trans (List.suffix_cons _ _).isInfix)
    obtain ⟨a, ha, rfl⟩ := List.mem_map.mp ht
    exact harguments a ha

theorem eliminate_call {subject : Subject} {type : String} {s : Statement} {callee : String}
    {arguments : List Argument} (htype : subject.type = .str type) (hordinary : IsOrdinary type)
    (hchosen : subject.chosen = false) (hs : s.expression = .call callee arguments)
    (htargets : ∀ x ∈ s.targets, '(' ∉ x.toList) (hcallee : '(' ∉ callee.toList)
    (harguments : ∀ a ∈ arguments, Unmarked a.text.toList) :
    eliminate subject s.text = .ok s.text := by
  rw [eliminate_of_not_mem htype hordinary.not_mem_passTypes hchosen s.text_ne_empty,
    not_movesToItself_call hs htargets hcallee harguments, if_neg Bool.false_ne_true]

end Workflow

end Flowscript
