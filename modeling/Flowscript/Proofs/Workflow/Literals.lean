import Flowscript.Proofs.Workflow.Commented

/-!
# Literals that denote their text

A text is written between one quote or three, raw if it has a backslash, and with the quotes at its
end escaped. Read again, the literal does not always stand for the text. Without a backslash, it does
so unless three quotes come together before the end. With one, the escapes are read as they stand, so
that the text may have no quotes at its end; and both the backslashes and the quotes have to be such
that the literal is closed at its end and not before.
-/

namespace Flowscript

open List Option

namespace Source

/-! ## Literals from end to end -/

def lettersOf (cs : List Char) : List Letter := cs.map fun c => .code c.toNat

/-- The script is one literal, raw or not, from its first character to its last, and the literal
stands for the text. -/
def Denotes (script s : String) : Prop :=
  ∃ mark ∈ ["", "r"], (∃ rest, script.toList = mark.toList ++ '\'' :: rest) ∧
    literals script = some [⟨mark, lettersOf s.toList⟩] ∧
    literals (String.ofList script.toList.dropLast) = none

/-- How many quotes stand together at the end of a text, after some that stand in front of it. Every
backslash takes the next character with it. There is no answer if three quotes come together, or if
nothing is left for a backslash to take. -/
def scan : Nat → List Char → Option Nat
  | quotes, [] => some quotes
  | quotes, c :: rest =>
    if c = '\\' then
      match rest with
      | [] => none
      | _ :: rest => scan 0 rest
    else if c = '\'' then if quotes = 2 then none else scan (quotes + 1) rest
    else scan 0 rest

def spelled (cs : List Char) : List Event := (lettersOf cs).map .letter

theorem spelled_append (left right : List Char) :
    spelled (left ++ right) = spelled left ++ spelled right := by
  simp [spelled, lettersOf]

theorem lettersOf_injective : Function.Injective lettersOf := by
  refine map_injective_iff.mpr fun c d h => ?_
  exact Char.toNat_inj.mp (Letter.code.inj h)

theorem gather_spelled (read : List Letter) (cs : List Char) (events : List Event) :
    gather read (spelled cs ++ events) = gather ((lettersOf cs).reverse ++ read) events := by
  induction cs generalizing read with
  | nil => rfl
  | cons c rest ih =>
    have hcons : spelled (c :: rest) ++ events = .letter (.code c.toNat) :: (spelled rest ++ events) := rfl
    rw [hcons, gather, ih]
    simp [lettersOf]

/-! ## Fences of single quotes -/

def fence (raw triple : Bool) : Fence := ⟨false, triple, if raw then "r" else ""⟩

def quotesOf (triple : Bool) : List Char := if triple then ['\'', '\'', '\''] else ['\'']

section Fence

variable {raw triple : Bool}

@[simp] theorem quote_fence : (fence raw triple).quote = '\'' := rfl

@[simp] theorem triple_fence : (fence raw triple).triple = triple := rfl

@[simp] theorem isRaw_fence : (fence raw triple).isRaw = raw := by
  cases raw <;> cases triple <;> decide

@[simp] theorem bars_fence (c : Char) : (fence raw triple).bars c = false := by
  have hbytes : (fence raw triple).isBytes = false := by
    cases raw <;> cases triple <;> decide
  rw [Fence.bars, hbytes, Bool.false_and]

variable {quotes : Nat} {c : Char}

theorem next_backslash :
    next (.inside (fence raw triple) quotes) '\\' =
      (.escaped (fence raw triple), spelled (List.replicate quotes '\'')) := by
  simp [next, readInside, spelled, lettersOf]

theorem next_escaped (hraw : raw = true) :
    next (.escaped (fence raw triple)) c = (.inside (fence raw triple) 0, spelled ['\\', c]) := by
  subst hraw
  simp [next, readEscape, spelled, lettersOf]

theorem next_escaped_quote (hraw : raw = false) :
    next (.escaped (fence raw triple)) '\'' = (.inside (fence raw triple) 0, spelled ['\'']) := by
  subst hraw
  cases triple <;> rfl

theorem next_quote (htriple : triple = true) (hquotes : quotes < 2) :
    next (.inside (fence raw triple) quotes) '\'' = (.inside (fence raw triple) (quotes + 1), []) := by
  subst htriple
  obtain rfl | rfl : quotes = 0 ∨ quotes = 1 := by omega
  · simp [next, readInside]
  · simp [next]

theorem next_last_quote :
    next (.inside (fence raw triple) 2) '\'' = (.code [], [.close (fence raw triple).mark]) := by
  simp [next]

theorem next_letter (hquote : c ≠ '\'') (hslash : c ≠ '\\') (hfeed : triple = true ∨ c ≠ '\n') :
    next (.inside (fence raw triple) quotes) c =
      (.inside (fence raw triple) 0, spelled (List.replicate quotes '\'' ++ [c])) := by
  have hline : (c == '\n' && !triple) = false := by
    rcases hfeed with rfl | hc
    · simp
    · simp [hc]
  simp [next, readInside, hquote, hslash, hline, spelled, lettersOf]

end Fence

/-! ## How far a literal goes -/

/-- What may stand in a literal: a text with backslashes if it is raw, and one with quotes and line
feeds if it has three quotes. -/
structure Holds (raw triple : Bool) (cs : List Char) : Prop where
  slash : raw = true ∨ '\\' ∉ cs
  quote : triple = true ∨ '\'' ∉ cs
  feed : triple = true ∨ '\n' ∉ cs

theorem Holds.of_subset {raw triple : Bool} {cs ds : List Char} (h : Holds raw triple cs) (hsub : ds ⊆ cs) :
    Holds raw triple ds :=
  ⟨h.slash.imp_right fun hno hmem => hno (hsub hmem), h.quote.imp_right fun hno hmem => hno (hsub hmem),
    h.feed.imp_right fun hno hmem => hno (hsub hmem)⟩

section Scan

variable {raw triple : Bool} {quotes : Nat} {cs : List Char}

/-- A text goes on being read if three quotes never come together, and all of it is read except for
the quotes that stand at its end. -/
theorem run_of_scan {last : Nat} (h : scan quotes cs = some last) (hquotes : quotes ≤ 2)
    (hcs : Holds raw triple cs) :
    ∃ ds, run (.inside (fence raw triple) quotes) cs = (.inside (fence raw triple) last, spelled ds) ∧
      List.replicate quotes '\'' ++ cs = ds ++ List.replicate last '\'' := by
  fun_induction scan quotes cs with
  | case1 quotes =>
    obtain rfl := some.inj h
    exact ⟨[], rfl, by simp⟩
  | case2 quotes => cases h
  | case3 quotes d rest ih =>
    have hraw := hcs.slash.resolve_right (by simp)
    obtain ⟨ds, hrun, hds⟩ := ih h (by omega) (hcs.of_subset fun e he => by simp [he])
    refine ⟨List.replicate quotes '\'' ++ ['\\', d] ++ ds, ?_, by simpa using hds⟩
    rw [run, run, next_backslash, next_escaped hraw, hrun, spelled_append, spelled_append,
      append_assoc]
  | case4 rest hslash => cases h
  | case5 quotes rest hslash htwo ih =>
    have htriple := hcs.quote.resolve_right (by simp)
    obtain ⟨ds, hrun, hds⟩ := ih h (by omega) (hcs.of_subset fun e he => by simp [he])
    refine ⟨ds, ?_, by simpa [replicate_succ'] using hds⟩
    rw [run, next_quote htriple (by omega), hrun, nil_append]
  | case6 quotes c rest hslash hquote ih =>
    obtain ⟨ds, hrun, hds⟩ := ih h (by omega) (hcs.of_subset fun e he => by simp [he])
    have hfeed : triple = true ∨ c ≠ '\n' := hcs.feed.imp_right fun hno heq => hno (by simp [heq])
    refine ⟨List.replicate quotes '\'' ++ [c] ++ ds, ?_, by simpa using hds⟩
    rw [run, next_letter hquote hslash hfeed, hrun, spelled_append (_ ++ [c]) ds]

theorem run_of_scan_eq_none (h : scan quotes cs = none) (hquotes : quotes ≤ 2)
    (hcs : Holds raw triple cs) :
    (raw = true ∧ ∃ ds, run (.inside (fence raw triple) quotes) cs =
      (.escaped (fence raw triple), spelled ds)) ∨
    ∃ front ds, front <+: cs ∧ List.replicate quotes '\'' ++ front = ds ++ ['\'', '\'', '\''] ∧
      run (.inside (fence raw triple) quotes) front =
        (.code [], spelled ds ++ [.close (fence raw triple).mark]) := by
  fun_induction scan quotes cs with
  | case1 quotes => cases h
  | case2 quotes =>
    exact .inl ⟨hcs.slash.resolve_right (by simp), _, by rw [run, next_backslash, run, append_nil]⟩
  | case3 quotes d rest ih =>
    have hraw := hcs.slash.resolve_right (by simp)
    rcases ih h (by omega) (hcs.of_subset fun e he => by simp [he]) with
      ⟨-, ds, hrun⟩ | ⟨front, ds, hfront, hds, hrun⟩
    · refine .inl ⟨hraw, List.replicate quotes '\'' ++ ['\\', d] ++ ds, ?_⟩
      rw [run, run, next_backslash, next_escaped hraw, hrun, spelled_append, spelled_append,
        append_assoc]
    · refine .inr ⟨'\\' :: d :: front, List.replicate quotes '\'' ++ ['\\', d] ++ ds,
        by simpa using hfront, by simpa using hds, ?_⟩
      rw [run, run, next_backslash, next_escaped hraw, hrun, spelled_append, spelled_append,
        append_assoc, append_assoc]
  | case4 rest hslash =>
    exact .inr ⟨['\''], [], prefix_append _ rest, rfl, by rw [run, next_last_quote]; rfl⟩
  | case5 quotes rest hslash htwo ih =>
    have htriple := hcs.quote.resolve_right (by simp)
    have hnext : next (.inside (fence raw triple) quotes) '\'' =
      (.inside (fence raw triple) (quotes + 1), []) := next_quote htriple (by omega)
    rcases ih h (by omega) (hcs.of_subset fun e he => by simp [he]) with
      ⟨hraw, ds, hrun⟩ | ⟨front, ds, hfront, hds, hrun⟩
    · exact .inl ⟨hraw, ds, by rw [run, hnext, hrun, nil_append]⟩
    · exact .inr ⟨'\'' :: front, ds, by simpa using hfront,
        by simpa [replicate_succ'] using hds, by rw [run, hnext, hrun, nil_append]⟩
  | case6 quotes c rest hslash hquote ih =>
    have hfeed : triple = true ∨ c ≠ '\n' := hcs.feed.imp_right fun hno heq => hno (by simp [heq])
    have hnext : next (.inside (fence raw triple) quotes) c = (.inside (fence raw triple) 0,
      spelled (List.replicate quotes '\'' ++ [c])) := next_letter hquote hslash hfeed
    rcases ih h (by omega) (hcs.of_subset fun e he => by simp [he]) with
      ⟨hraw, ds, hrun⟩ | ⟨front, ds, hfront, hds, hrun⟩
    · exact .inl ⟨hraw, List.replicate quotes '\'' ++ [c] ++ ds,
        by rw [run, hnext, hrun, spelled_append (_ ++ [c]) ds]⟩
    · refine .inr ⟨c :: front, List.replicate quotes '\'' ++ [c] ++ ds, by simpa using hfront,
        by simpa using hds, ?_⟩
      rw [run, hnext, hrun, spelled_append (_ ++ [c]) ds, append_assoc]

theorem scan_eq_none_iff (h : '\\' ∉ cs) (hquotes : quotes ≤ 2) :
    scan quotes cs = none ↔ ['\'', '\'', '\''] <:+: List.replicate quotes '\'' ++ cs := by
  have hfew {quotes : Nat} (hquotes : quotes ≤ 2) :
      ¬ ['\'', '\'', '\''] <:+: List.replicate quotes '\'' := fun hpart => by
    have := hpart.length_le
    simp at this
    omega
  fun_induction scan quotes cs with
  | case1 quotes => simpa using hfew hquotes
  | case2 quotes => exact absurd mem_cons_self h
  | case3 quotes d rest ih => exact absurd mem_cons_self h
  | case4 rest hslash => simpa using ⟨[], rest, rfl⟩
  | case5 quotes rest hslash htwo ih =>
    have hrest := ih (fun hmem => h (mem_cons_of_mem _ hmem)) (by omega)
    rwa [replicate_succ', append_assoc, singleton_append] at hrest
  | case6 quotes c rest hslash hquote ih =>
    have hrest := ih (fun hmem => h (mem_cons_of_mem _ hmem)) (by omega)
    rw [replicate_zero, nil_append] at hrest
    refine hrest.trans ⟨?_, ?_⟩
    · intro hpart
      exact hpart.trans ((suffix_cons c rest).trans (suffix_append _ _)).isInfix
    · intro hpart
      rcases Workflow.infix_or_of_append_cons (by simpa using hquote) hpart with hleft | hright
      · exact absurd hleft (hfew hquotes)
      · exact hright

end Scan

/-! ## Texts between quotes -/

def fenced (raw triple : Bool) (body : List Char) : List Char :=
  (if raw then ['r'] else []) ++ quotesOf triple ++ body ++ quotesOf triple

section Fenced

variable {raw triple : Bool} {body : List Char} {s : String}

def Opens (triple : Bool) (body : List Char) : Prop :=
  triple = true ∨ ∃ c rest, body = c :: rest ∧ c ≠ '\''

theorem run_opening (h : Opens triple body) (rest : List Char) :
    run (.code []) ((if raw then ['r'] else []) ++ quotesOf triple ++ body ++ rest) =
      run (.inside (fence raw triple) 0) (body ++ rest) := by
  have hquote : run (.code []) ((if raw then ['r'] else []) ++ ['\'']) =
      (.opened (fence raw false), []) := by
    cases raw <;> rfl
  cases triple with
  | true =>
    have hopen : run (.code []) ((if raw then ['r'] else []) ++ quotesOf true) =
        (.inside (fence raw true) 0, []) := by
      have hsplit : quotesOf true = ['\''] ++ ['\'', '\''] := rfl
      rw [hsplit, ← append_assoc, run_append, hquote]
      rfl
    rw [append_assoc, run_append, hopen, nil_append]
  | false =>
    obtain ⟨c, body, rfl, hc⟩ := h.resolve_left Bool.false_ne_true
    have hnext : next (.opened (fence raw false)) c = next (.inside (fence raw false) 0) c := by
      simp [next, hc]
    have hopen : run (.code []) ((if raw then ['r'] else []) ++ quotesOf false) =
      (.opened (fence raw false), []) := hquote
    rw [append_assoc, run_append, hopen, nil_append, cons_append, run, run, hnext]

theorem run_closing {cs : List Char} (h : run (.inside (fence raw triple) 0) body =
    (.inside (fence raw triple) 0, spelled cs)) :
    run (.inside (fence raw triple) 0) (body ++ quotesOf triple) =
      (.code [], spelled cs ++ [.close (fence raw triple).mark]) := by
  rw [run_append, h]
  cases triple <;> rfl

theorem run_closing_dropLast {cs : List Char} (h : run (.inside (fence raw triple) 0) body =
    (.inside (fence raw triple) 0, spelled cs)) :
    finish (run (.inside (fence raw triple) 0) (body ++ (quotesOf triple).dropLast)).1 = none := by
  rw [run_append, h]
  cases triple <;> rfl

theorem not_mem_fenced (h : '\r' ∉ body) (rest : List Char) (hrest : rest ⊆ quotesOf triple) :
    '\r' ∉ (if raw then ['r'] else []) ++ quotesOf triple ++ body ++ rest := by
  have hquotes : '\r' ∉ quotesOf triple := by cases triple <;> decide
  have hmark : '\r' ∉ (if raw then ['r'] else []) := by cases raw <;> decide
  simp only [mem_append, not_or]
  exact ⟨⟨⟨hmark, hquotes⟩, h⟩, fun hmem => hquotes (hrest hmem)⟩

theorem literals_fenced (hopens : Opens triple body) (hreturn : '\r' ∉ body) {rest : List Char}
    (hrest : rest ⊆ quotesOf triple) :
    literals (String.ofList ((if raw then ['r'] else []) ++ quotesOf triple ++ body ++ rest)) =
      (finish (run (.inside (fence raw triple) 0) (body ++ rest)).1).map fun last =>
        gather [] ((run (.inside (fence raw triple) 0) (body ++ rest)).2 ++ last) := by
  unfold literals
  rw [String.toList_ofList, unixEnds_of_not_mem (not_mem_fenced hreturn rest hrest), run_opening hopens]

theorem denotes_of_run (hopens : Opens triple body) (hreturn : '\r' ∉ body)
    (h : run (.inside (fence raw triple) 0) body = (.inside (fence raw triple) 0, spelled s.toList)) :
    Denotes (String.ofList (fenced raw triple body)) s := by
  refine ⟨(fence raw triple).mark, by cases raw <;> simp [fence], ?_, ?_, ?_⟩
  · rw [String.toList_ofList, fenced]
    cases raw <;> cases triple <;> exact ⟨_, rfl⟩
  · rw [fenced, literals_fenced hopens hreturn (List.Subset.refl _), run_closing h]
    simp [finish, gather_spelled, gather]
  · have hdrop : (fenced raw triple body).dropLast =
        (if raw then ['r'] else []) ++ quotesOf triple ++ body ++ (quotesOf triple).dropLast := by
      rw [fenced, dropLast_append_of_ne_nil]
      cases triple <;> simp [quotesOf]
    rw [String.toList_ofList, hdrop, literals_fenced hopens hreturn (dropLast_subset _),
      run_closing_dropLast h]
    rfl

theorem not_denotes_of_open (hopens : Opens triple body) (hreturn : '\r' ∉ body)
    (h : finish (run (.inside (fence raw triple) 0) (body ++ quotesOf triple)).1 = none) :
    ¬ Denotes (String.ofList (fenced raw triple body)) s := by
  rintro ⟨mark, -, -, hliterals, -⟩
  rw [fenced, literals_fenced hopens hreturn (List.Subset.refl _), h] at hliterals
  cases hliterals

theorem eq_of_denotes (hopens : Opens triple body) (hreturn : '\r' ∉ body)
    (hdenotes : Denotes (String.ofList (fenced raw triple body)) s) {front ds : List Char}
    (hsplit : front <+: body ++ quotesOf triple)
    (hfront : run (.inside (fence raw triple) 0) front =
      (.code [], spelled ds ++ [.close (fence raw triple).mark]))
    : ds = s.toList := by
  obtain ⟨mark, -, -, hliterals, -⟩ := hdenotes
  obtain ⟨rest, hsplit⟩ := hsplit
  rw [fenced, literals_fenced hopens hreturn (List.Subset.refl _), ← hsplit, run_append, hfront] at hliterals
  obtain ⟨last, -, hgather⟩ := map_eq_some_iff.mp hliterals
  rw [append_assoc, append_assoc, gather_spelled, singleton_append, gather] at hgather
  obtain ⟨hfirst, -⟩ := cons.inj hgather
  have hletters := (Literal.mk.inj hfirst).2
  rw [append_nil, reverse_reverse] at hletters
  exact lettersOf_injective hletters

end Fenced

end Source

namespace Literal

/-! ## The quotes at the end -/

/-- A text is cut before the quotes that stand at its end, or before its final line feed. -/
structure IsCut (cs front quotes feed : List Char) : Prop where
  whole : front ++ quotes ++ feed = cs
  feed_eq : feed = if cs.getLast? = some '\n' then ['\n'] else []
  all_quotes : ∀ c ∈ quotes, c = '\''
  longest : front.getLast? ≠ some '\''

section Cut

variable {cs front quotes feed : List Char}

theorem isCut_cutQuotes (cs : List Char) :
    IsCut cs (cutQuotes cs).1 (cutQuotes cs).2.1 (cutQuotes cs).2.2 := by
  obtain ⟨hwhole, hquotes⟩ := Source.cutQuotes_spec cs
  refine ⟨hwhole, ?_, hquotes, ?_⟩
  · unfold cutQuotes cutEnd
    dsimp only
    split <;> simp_all
  · unfold cutQuotes
    dsimp only
    generalize (cutEnd cs).1 = body
    have hbody : (body.reverse.dropWhile (· == '\'')).reverse ++
        (body.reverse.takeWhile (· == '\'')).reverse = body := by
      rw [← reverse_append, takeWhile_append_dropWhile, reverse_reverse]
    have htake {front quotes : List Char} (h : front ++ quotes.reverse = body) :
        body.take (body.length - quotes.length) = front := by
      simp [← h]
    rw [htake hbody, getLast?_reverse]
    intro hlast
    have hnot := head?_dropWhile_not (· == '\'') body.reverse
    rw [hlast] at hnot
    simp at hnot

def between (front quotes feed : List Char) : List Char :=
  front ++ quotes.flatMap (fun _ => ['\\', '\'']) ++ feed

namespace IsCut

theorem getLast?_ne (h : IsCut cs front [] feed) : cs.getLast? ≠ some '\'' := by
  have hfeed := h.feed_eq
  split_ifs at hfeed with hend
  · simp [hend]
  · rw [← h.whole, hfeed]
    simpa using h.longest

variable (h : IsCut cs front quotes feed)
include h

theorem cutQuotes_eq : cutQuotes cs = (front, quotes, feed) := by
  -- of two ways to cut, one front has the other and more quotes, and these would be at its end
  have hfront {front quotes front' quotes' : List Char} (hlast : front.getLast? ≠ some '\'')
      (hquotes' : ∀ c ∈ quotes', c = '\'') {more : List Char} (hmore : front = front' ++ more)
      (hquotes : quotes' = more ++ quotes) : front = front' ∧ quotes = quotes' := by
    rcases eq_nil_or_concat more with rfl | ⟨init, c, rfl⟩
    · simp_all
    · obtain rfl := hquotes' c (by simp [hquotes])
      exact absurd (by simp [hmore]) hlast
  have hcut := isCut_cutQuotes cs
  have hfeed : (cutQuotes cs).2.2 = feed := hcut.feed_eq.trans h.feed_eq.symm
  have hwhole : (cutQuotes cs).1 ++ (cutQuotes cs).2.1 = front ++ quotes :=
    append_cancel_right (hcut.whole.trans (hfeed ▸ h.whole.symm))
  obtain ⟨hleft, hmid⟩ : (cutQuotes cs).1 = front ∧ (cutQuotes cs).2.1 = quotes := by
    rcases append_eq_append_iff.mp hwhole with ⟨more, hmore, hquotes⟩ | ⟨more, hmore, hquotes⟩
    · obtain ⟨heq, heq'⟩ := hfront h.longest hcut.all_quotes hmore hquotes
      exact ⟨heq.symm, heq'.symm⟩
    · exact hfront hcut.longest h.all_quotes hmore hquotes
  exact Prod.ext hleft (Prod.ext hmid hfeed)

theorem escapeEnd_eq : escapeEnd cs = between front quotes feed := by
  rw [escapeEnd, h.cutQuotes_eq, between]

theorem quotes_subset : quotes ⊆ cs := fun c hc => by
  simp [← h.whole, hc]

theorem front_subset : front ⊆ cs := fun c hc => by
  simp [← h.whole, hc]

theorem feed_subset : feed ⊆ cs := fun c hc => by
  simp [← h.whole, hc]

theorem between_eq (hno : '\'' ∉ cs) : between front quotes feed = cs := by
  have hnil : quotes = [] := eq_nil_iff_forall_not_mem.mpr fun c hc =>
    hno (h.all_quotes c hc ▸ h.quotes_subset hc)
  rw [between, hnil, ← h.whole, hnil]
  rfl

theorem opens (hcs : cs ≠ []) :
    Source.Opens (cs.contains '\n' || cs.contains '\'') (between front quotes feed) := by
  by_cases hquote : '\'' ∈ cs
  · exact .inl (by simp [hquote])
  · obtain ⟨c, rest, rfl⟩ := exists_cons_of_ne_nil hcs
    exact .inr ⟨c, rest, h.between_eq hquote, fun hc => hquote (by simp [hc])⟩

theorem writeChars_eq (hcs : cs ≠ []) :
    writeChars cs = Source.fenced (cs.contains '\\') (cs.contains '\n' || cs.contains '\'')
      (between front quotes feed) := by
  have hempty : cs.isEmpty = false := by simpa using hcs
  unfold writeChars
  rw [if_neg (by simp [hempty]), ← h.escapeEnd_eq]
  dsimp only
  cases htriple : cs.contains '\n' || cs.contains '\'' with
  | true =>
    rw [if_neg (by rw [← Bool.not_or, htriple]; simp)]
    rfl
  | false =>
    have hquote : '\'' ∉ cs := by simp_all
    rw [if_pos (by rw [← Bool.not_or, htriple]; simp), h.escapeEnd_eq, h.between_eq hquote]
    simp [Source.fenced, Source.quotesOf]

end IsCut

end Cut

/-! ## Literals that denote their text -/

section Denotes

variable {triple : Bool}

open Source

variable {s : String} {front quotes feed : List Char}

theorem run_escapes (h : ∀ c ∈ quotes, c = '\'') :
    run (.inside (fence false triple) 0) (quotes.flatMap fun _ => ['\\', '\'']) =
      (.inside (fence false triple) 0, spelled quotes) := by
  induction quotes with
  | nil => rfl
  | cons c rest ih =>
    obtain rfl := h c mem_cons_self
    rw [flatMap_cons, cons_append, cons_append, nil_append, run, run,
      next_backslash, next_escaped_quote rfl, ih fun c hc => h c (mem_cons_of_mem _ hc)]
    rfl

theorem eq_zero_of_getLast? {cs ds : List Char} {last : Nat} (h : cs.getLast? ≠ some '\'')
    (hcs : cs = ds ++ List.replicate last '\'') : last = 0 ∧ ds = cs := by
  cases last with
  | zero => simp [hcs]
  | succ last => exact absurd (by rw [hcs, replicate_succ']; simp) h

theorem denotes_plain_iff (hcut : IsCut s.toList front quotes feed)
    (hopens : Opens triple (between front quotes feed)) (hreturn : '\r' ∉ between front quotes feed)
    (hholds : Holds false triple s.toList) :
    Denotes (String.ofList (fenced false triple (between front quotes feed))) s ↔
      ¬ ['\'', '\'', '\''] <:+: front := by
  have hslash : '\\' ∉ front := (hholds.of_subset hcut.front_subset).slash.resolve_left Bool.false_ne_true
  have hscan := scan_eq_none_iff hslash (Nat.zero_le 2)
  rw [replicate_zero, nil_append] at hscan
  rw [← hscan]
  constructor
  · intro hdenotes hnone
    rcases run_of_scan_eq_none hnone (Nat.zero_le 2) (hholds.of_subset hcut.front_subset) with
      ⟨hraw, -⟩ | ⟨first, ds, hfirst, hds, hrun⟩
    · exact absurd hraw Bool.false_ne_true
    · -- the literal is closed too early: what is read of it is shorter than the text
      have hsplit : front <+: between front quotes feed ++ quotesOf triple := by
        simp only [between, append_assoc]
        exact prefix_append _ _
      have heq := eq_of_denotes hopens hreturn hdenotes (hfirst.trans hsplit) hrun
      have hlength := congrArg List.length (hcut.whole.trans heq.symm)
      have hfront := hfirst.length_le
      rw [replicate_zero, nil_append] at hds
      simp only [hds, length_append, length_cons, length_nil] at hlength hfront
      omega
  · intro hsome
    obtain ⟨last, hlast⟩ := ne_none_iff_exists'.mp hsome
    obtain ⟨ds, hrun, hds⟩ := run_of_scan hlast (Nat.zero_le 2) (hholds.of_subset hcut.front_subset)
    obtain ⟨rfl, rfl⟩ := eq_zero_of_getLast? hcut.longest hds
    have hfeed : run (.inside (fence false triple) 0) feed =
        (.inside (fence false triple) 0, spelled feed) := by
      have heq := hcut.feed_eq
      split_ifs at heq with hend
      · have htriple : triple = true :=
          hholds.feed.resolve_right fun hno => hno (hcut.feed_subset (by simp [heq]))
        subst htriple heq
        rfl
      · rw [heq]
        rfl
    refine denotes_of_run hopens hreturn ?_
    rw [between, run_append, run_append, hrun, run_escapes hcut.all_quotes, hfeed, ← hcut.whole,
      spelled_append, spelled_append]

theorem denotes_raw_iff (hcut : IsCut s.toList front quotes feed)
    (hopens : Opens triple (between front quotes feed)) (hreturn : '\r' ∉ between front quotes feed)
    (hholds : Holds true triple s.toList) :
    Denotes (String.ofList (fenced true triple (between front quotes feed))) s ↔
      quotes = [] ∧ (scan 0 s.toList).isSome := by
  by_cases hquotes : quotes = []
  · subst hquotes
    have hbody : between front [] feed = s.toList := hcut.whole
    rw [hbody] at hopens hreturn ⊢
    rw [eq_self, true_and]
    constructor
    · intro hdenotes
      rw [isSome_iff_ne_none]
      intro hnone
      rcases run_of_scan_eq_none hnone (Nat.zero_le 2) hholds with ⟨-, ds, hrun⟩ | ⟨first, ds, hfirst, hds, hrun⟩
      · refine not_denotes_of_open hopens hreturn ?_ hdenotes
        rw [run_append, hrun]
        cases triple <;> rfl
      · have heq := eq_of_denotes hopens hreturn hdenotes (hfirst.trans (prefix_append _ _)) hrun
        have hlength := hfirst.length_le
        rw [replicate_zero, nil_append] at hds
        simp [hds, heq] at hlength
    · intro hsome
      obtain ⟨last, hlast⟩ := isSome_iff_exists.mp hsome
      obtain ⟨ds, hrun, hds⟩ := run_of_scan hlast (Nat.zero_le 2) hholds
      obtain ⟨rfl, rfl⟩ := eq_zero_of_getLast? hcut.getLast?_ne hds
      exact denotes_of_run hopens hreturn hrun
  · refine iff_of_false (fun hdenotes => ?_) fun h => hquotes h.1
    obtain ⟨c, rest, rfl⟩ := exists_cons_of_ne_nil hquotes
    obtain rfl := hcut.all_quotes c mem_cons_self
    have htriple : triple = true :=
      hholds.quote.resolve_right fun hno => hno (hcut.quotes_subset mem_cons_self)
    subst htriple
    cases hscan : scan 0 (between front ('\'' :: rest) feed ++ quotesOf true) with
    | some last =>
      obtain ⟨ds, hrun, -⟩ := run_of_scan hscan (Nat.zero_le 2) ⟨.inl rfl, .inl rfl, .inl rfl⟩
      exact not_denotes_of_open hopens hreturn (by rw [hrun]; rfl) hdenotes
    | none =>
      rcases run_of_scan_eq_none hscan (Nat.zero_le 2) ⟨.inl rfl, .inl rfl, .inl rfl⟩ with
        ⟨-, ds, hrun⟩ | ⟨first, ds, hfirst, hds, hrun⟩
      · exact not_denotes_of_open hopens hreturn (by rw [hrun]; rfl) hdenotes
      · -- what is read has the backslash of the first escape, where the text has a quote
        have heq := eq_of_denotes hopens hreturn hdenotes hfirst hrun
        rw [replicate_zero, nil_append] at hds
        rw [hds, heq, ← hcut.whole] at hfirst
        simp [between] at hfirst

/-- The literal of a text is one literal that denotes the text, if and only if either the text has no
backslash and three quotes never come together before the quotes at its end, or it has one and no
quotes at its end, and the quotes and backslashes of it close no raw literal and keep none open. -/
theorem denotes_write_iff (hs : s ≠ "") (hreturn : '\r' ∉ s.toList)
    (hcut : IsCut s.toList front quotes feed) :
    Denotes (write s) s ↔
      '\\' ∉ s.toList ∧ ¬ ['\'', '\'', '\''] <:+: front ∨
      '\\' ∈ s.toList ∧ quotes = [] ∧ (scan 0 s.toList).isSome := by
  have hne : s.toList ≠ [] := fun hnil => hs (String.toList_eq_nil_iff.mp hnil)
  have hwrite := hcut.writeChars_eq hne
  have hopens := hcut.opens hne
  have hbody : '\r' ∉ between front quotes feed := by
    rw [← hcut.whole] at hreturn
    simp only [between, List.mem_append, List.mem_flatMap, List.mem_cons, not_or] at hreturn ⊢
    exact ⟨⟨hreturn.1.1, by simp⟩, hreturn.2⟩
  have hholds : Holds (s.toList.contains '\\') (s.toList.contains '\n' || s.toList.contains '\'')
      s.toList := by
    refine ⟨?_, ?_, ?_⟩ <;> simp <;> tauto
  rw [write, hwrite]
  cases hslash : s.toList.contains '\\' with
  | false =>
    rw [hslash] at hholds
    rw [denotes_plain_iff hcut hopens hbody hholds]
    simp_all
  | true =>
    rw [hslash] at hholds
    rw [denotes_raw_iff hcut hopens hbody hholds]
    simp_all

/-- A text with quotes in the middle and at the end of its line denotes itself; one with a backslash
denotes itself with a quote in front, but not with one behind. -/
theorem denotes_write_iff_quotes :
    Denotes (write "it's 'so''\n") "it's 'so''\n" ∧ Denotes (write "'C:\\a") "'C:\\a" ∧
      ¬ Denotes (write "C:\\a'") "C:\\a'" := by
  have hline : IsCut "it's 'so''\n".toList "it's 'so".toList ['\'', '\''] ['\n'] :=
    ⟨by decide, by decide, by simp, by decide⟩
  have hfront : IsCut "'C:\\a".toList "'C:\\a".toList [] [] := ⟨by decide, by decide, by simp, by decide⟩
  have hbehind : IsCut "C:\\a'".toList "C:\\a".toList ['\''] [] :=
    ⟨by decide, by decide, by simp, by decide⟩
  refine ⟨(denotes_write_iff (by decide) (by decide) hline).mpr (.inl ⟨by decide, by decide⟩),
    (denotes_write_iff (by decide) (by decide) hfront).mpr (.inr ⟨by decide, rfl, by decide⟩), fun h => ?_⟩
  rcases (denotes_write_iff (by decide) (by decide) hbehind).mp h with ⟨hslash, -⟩ | ⟨-, hquotes, -⟩
  · exact hslash (by decide)
  · cases hquotes

end Denotes

end Literal

end Flowscript
