import Flowscript.Text.Lines
import Mathlib.Data.List.TakeWhile
import Mathlib.Tactic.Ring

/-!
# Text literals as they are read

A script is read from left to right. Outside of literals there are words, comments and other
characters; a quote opens a literal, or three of them do, and the word in front may be a mark that
says how the literal is read. Inside a literal a backslash starts an escape, unless the mark makes
the literal raw. A literal with one quote ends on its line.

Indenting a script puts blanks in front of lines. Between literals they do not matter, but a line
that starts inside a literal takes the blanks into the text of the literal.
-/

namespace Flowscript.Source

open List Option

variable {c : Char}

/-! ## Reading -/

/-- How a literal is opened: by which quote, by one or by three, and with which mark. -/
structure Fence where
  double : Bool
  triple : Bool
  mark : String

namespace Fence

def quote (f : Fence) : Char := if f.double then '"' else '\''

def isRaw (f : Fence) : Bool := f.mark.toList.contains 'r'

def isBytes (f : Fence) : Bool := f.mark.toList.contains 'b'

def bars (f : Fence) (c : Char) : Bool := f.isBytes && decide (128 ≤ c.toNat)

end Fence

/-- A character that a literal stands for, by its code or by its name. -/
inductive Letter where
  | code (n : Nat)
  | name (cs : List Char)

inductive Event where
  | letter (l : Letter)
  | close (mark : String)

inductive Mode where
  | code (word : List Char)
  | comment
  | opened (f : Fence)
  /-- Two quotes: an empty literal, or two of three quotes. -/
  | emptied (f : Fence)
  | inside (f : Fence) (quotes : Nat)
  | escaped (f : Fence)
  /-- An escape by octal digits, with the number so far and how many there are. -/
  | octal (f : Fence) (n digits : Nat)
  /-- An escape by hexadecimal digits, with the number so far and how many are missing. -/
  | hex (f : Fence) (n missing : Nat)
  /-- An escape by a name, with the letters after the bracket, backwards. -/
  | naming (f : Fence) (cs : Option (List Char))
  | broken

/-- The letters that may stand in front of a literal. -/
def marks : List String := ["r", "u", "b", "f", "br", "rb", "fr", "rf"]

def markOf (word : List Char) : String :=
  let w := String.ofList (word.reverse.map Char.toLower)
  if marks.contains w then w else ""

def isWordChar (c : Char) : Bool :=
  c.isAlphanum || c == '_' || (decide (128 ≤ c.toNat) && !Text.isBlank c)

def digit? (c : Char) : Option Nat :=
  if '0' ≤ c ∧ c ≤ '9' then some (c.toNat - '0'.toNat)
  else if 'a' ≤ c ∧ c ≤ 'f' then some (c.toNat - 'a'.toNat + 10)
  else if 'A' ≤ c ∧ c ≤ 'F' then some (c.toNat - 'A'.toNat + 10)
  else none

def octalDigit? (c : Char) : Option Nat := (digit? c).filter (· < 8)

def escapes : List (Char × Nat) := [
  ('\\', 0x5C), ('\'', 0x27), ('"', 0x22), ('a', 0x7), ('b', 0x8), ('f', 0xC), ('n', 0xA),
  ('r', 0xD), ('t', 0x9), ('v', 0xB)]

def hexEscapes : List (Char × Nat) := [('x', 2), ('u', 4), ('U', 8)]

def isNameChar (c : Char) : Bool := c.isAlphanum || c == ' ' || c == '-'

def maxCode : Nat := 0x10FFFF

def readCode (word : List Char) (c : Char) : Mode × List Event :=
  if c == '\'' then (.opened ⟨false, false, markOf word⟩, [])
  else if c == '"' then (.opened ⟨true, false, markOf word⟩, [])
  else if c == '#' then (.comment, [])
  else if isWordChar c then (.code (c :: word), [])
  else (.code [], [])

def readInside (f : Fence) (c : Char) : Mode × List Event :=
  if c == f.quote then
    if f.triple then (.inside f 1, []) else (.code [], [.close f.mark])
  else if c == '\\' then (.escaped f, [])
  else if (c == '\n' && !f.triple) || f.bars c then (.broken, [])
  else (.inside f 0, [.letter (.code c.toNat)])

def readEscape (f : Fence) (c : Char) : Mode × List Event :=
  let both : Mode × List Event :=
    (.inside f 0, [.letter (.code '\\'.toNat), .letter (.code c.toNat)])
  if f.bars c then (.broken, [])
  else if f.isRaw then both
  else if c == '\n' then (.inside f 0, [])
  else match escapes.lookup c with
    | some n => (.inside f 0, [.letter (.code n)])
    | none => match octalDigit? c with
      | some n => (.octal f n 1, [])
      | none =>
        if f.isBytes && c != 'x' then both
        else if c == 'N' then (.naming f none, [])
        else match hexEscapes.lookup c with
          | some missing => (.hex f 0 missing, [])
          | none => both

def next : Mode → Char → Mode × List Event
  | .code word, c => readCode word c
  | .comment, c => if c == '\n' then (.code [], []) else (.comment, [])
  | .opened f, c => if c == f.quote then (.emptied f, []) else readInside f c
  | .emptied f, c =>
    if c == f.quote then (.inside { f with triple := true } 0, [])
    else ((readCode [] c).1, .close f.mark :: (readCode [] c).2)
  | .inside f quotes, c =>
    if c == f.quote && 0 < quotes then
      if quotes == 2 then (.code [], [.close f.mark]) else (.inside f (quotes + 1), [])
    else ((readInside f c).1,
      List.replicate quotes (.letter (.code f.quote.toNat)) ++ (readInside f c).2)
  | .escaped f, c => readEscape f c
  | .octal f n digits, c =>
    match if digits < 3 then octalDigit? c else none with
    | some d => (.octal f (8 * n + d) (digits + 1), [])
    | none => ((readInside f c).1, .letter (.code n) :: (readInside f c).2)
  | .hex f n missing, c =>
    match digit? c with
    | none => (.broken, [])
    | some d =>
      if 1 < missing then (.hex f (16 * n + d) (missing - 1), [])
      else if 16 * n + d ≤ maxCode then (.inside f 0, [.letter (.code (16 * n + d))])
      else (.broken, [])
  | .naming f none, c => if c == '{' then (.naming f (some []), []) else (.broken, [])
  | .naming f (some cs), c =>
    if c == '}' && !cs.isEmpty then (.inside f 0, [.letter (.name cs.reverse)])
    else if isNameChar c then (.naming f (some (c :: cs)), [])
    else (.broken, [])
  | .broken, _ => (.broken, [])

def run : Mode → List Char → Mode × List Event
  | m, [] => (m, [])
  | m, c :: rest => ((run (next m c).1 rest).1, (next m c).2 ++ (run (next m c).1 rest).2)

def finish : Mode → Option (List Event)
  | .code _ | .comment => some []
  | .emptied f => some [.close f.mark]
  | _ => none

structure Literal where
  mark : String
  letters : List Letter

/-- The literals of what is read; `read` holds the letters of the current one backwards. -/
def gather (read : List Letter) : List Event → List Literal
  | [] => []
  | .letter l :: rest => gather (l :: read) rest
  | .close mark :: rest => ⟨mark, read.reverse⟩ :: gather [] rest

/-- A carriage return is read as a line feed, also together with one. -/
def unixEnds : List Char → List Char
  | [] => []
  | '\r' :: '\n' :: rest => '\n' :: unixEnds rest
  | '\r' :: rest => '\n' :: unixEnds rest
  | c :: rest => c :: unixEnds rest

def literals (s : String) : Option (List Literal) :=
  let result := run (.code []) (unixEnds s.toList)
  (finish result.1).map fun last => gather [] (result.2 ++ last)

def Mode.isInside : Mode → Bool
  | .code _ | .comment | .emptied _ | .broken => false
  | _ => true

/-- A line that holds more than blanks starts inside a literal. -/
def SpansLines (s : String) : Prop :=
  ∃ earlier line later, Text.linesFrom [] (unixEnds s.toList) = earlier ++ line :: later ∧
    (Text.trim line).isEmpty = false ∧ (run (.code []) earlier.flatten).1.isInside = true

/-! ## Line ends -/

def lineEnds : List Char :=
  ['\n', '\x0b', '\x0c', '\r', '\x1c', '\x1d', '\x1e', '\x85', '\u2028', '\u2029']

theorem mem_lineEnds (h : Text.isLineEnd c = true) : c ∈ lineEnds := by
  have hcodes : lineEnds.map Char.toNat = [10, 11, 12, 13, 28, 29, 30, 133, 8232, 8233] := by decide
  have hcode : c.toNat ∈ lineEnds.map Char.toNat := by
    simp only [Text.isLineEnd, Text.inSpans, any_cons, any_nil, Bool.or_false,
      Bool.or_eq_true, Bool.and_eq_true, decide_eq_true_eq] at h
    simp only [hcodes, mem_cons, not_mem_nil, or_false]
    omega
  obtain ⟨d, hd, hcd⟩ := mem_map.mp hcode
  rwa [← Char.ofNat_toNat c, ← hcd, Char.ofNat_toNat]

theorem eq_of_isLineEnd (h : Text.isLineEnd c = true) :
    c = '\n' ∨ c = '\x0b' ∨ c = '\x0c' ∨ c = '\r' ∨ c = '\x1c' ∨ c = '\x1d' ∨ c = '\x1e' ∨ c = '\x85' ∨
      c = '\u2028' ∨ c = '\u2029' := by
  simpa only [lineEnds, mem_cons, not_mem_nil, or_false] using mem_lineEnds h

structure IsIdle (c : Char) : Prop where
  single : (c == '\'') = false
  double : (c == '"') = false
  backslash : (c == '\\') = false
  hash : (c == '#') = false
  word : isWordChar c = false
  escape : escapes.lookup c = none
  digit : digit? c = none
  hex : hexEscapes.lookup c = none
  named : (c == 'N') = false
  naming : (c == '{') = false ∧ (c == '}') = false ∧ isNameChar c = false

theorem isIdle_of_isLineEnd (h : Text.isLineEnd c = true) : IsIdle c := by
  obtain rfl | rfl | rfl | rfl | rfl | rfl | rfl | rfl | rfl | rfl := eq_of_isLineEnd h <;>
    exact ⟨by decide, by decide, by decide, by decide, by decide, by decide, by decide, by decide,
      by decide, by decide⟩

theorem IsIdle.quote (h : IsIdle c) (f : Fence) : (c == f.quote) = false := by
  unfold Fence.quote
  split
  · exact h.double
  · exact h.single

/-! ## Between lines -/

/-- What may be going on between two lines. -/
inductive Calm : Mode → Prop
  | code : Calm (.code [])
  | comment : Calm .comment
  | inside (f : Fence) : Calm (.inside f 0)
  | broken : Calm .broken

theorem calm_readInside (h : IsIdle c) (f : Fence) : Calm (readInside f c).1 := by
  simp only [readInside, h.quote f, h.backslash, Bool.false_eq_true, if_false]
  split
  · exact .broken
  · exact .inside f

theorem calm_readEscape (h : IsIdle c) (f : Fence) : Calm (readEscape f c).1 := by
  have hoctal : octalDigit? c = none := by simp [octalDigit?, h.digit]
  simp only [readEscape, h.escape, hoctal, h.named, h.hex, Bool.false_eq_true, if_false]
  split
  · exact .broken
  · split
    · exact .inside f
    · split
      · exact .inside f
      · split <;> exact .inside f

theorem readCode_of_isIdle (h : IsIdle c) (word : List Char) :
    readCode word c = (.code [], []) := by
  simp [readCode, h.single, h.double, h.hash, h.word]

theorem calm_next (h : IsIdle c) (m : Mode) : Calm (next m c).1 := by
  cases m with
  | code word =>
    rw [next, readCode_of_isIdle h]
    exact .code
  | comment =>
    rw [next]
    split
    · exact .code
    · exact .comment
  | opened f =>
    simp only [next, h.quote f, Bool.false_eq_true, if_false]
    exact calm_readInside h f
  | emptied f =>
    simp only [next, h.quote f, Bool.false_eq_true, if_false, readCode_of_isIdle h]
    exact .code
  | inside f quotes =>
    simp only [next, h.quote f, Bool.false_and, Bool.false_eq_true, if_false]
    exact calm_readInside h f
  | escaped f => exact calm_readEscape h f
  | octal f n digits =>
    have hnone : (if digits < 3 then octalDigit? c else none) = none := by
      simp [octalDigit?, h.digit]
    simp only [next, hnone]
    exact calm_readInside h f
  | hex f n missing =>
    simp only [next, h.digit]
    exact .broken
  | naming f cs =>
    cases cs with
    | none =>
      simp only [next, h.naming.1, Bool.false_eq_true, if_false]
      exact .broken
    | some cs =>
      simp only [next, h.naming.2.1, h.naming.2.2, Bool.false_and, Bool.false_eq_true, if_false]
      exact .broken
  | broken => exact .broken

theorem run_append (m : Mode) (left right : List Char) :
    run m (left ++ right) =
      ((run (run m left).1 right).1, (run m left).2 ++ (run (run m left).1 right).2) := by
  induction left generalizing m with
  | nil => rfl
  | cons c rest ih => simp [run, ih]

theorem run_blanks {m : Mode} (h : Calm m) (k : Nat) :
    run m (List.replicate k ' ') =
      (m, if m.isInside then List.replicate k (.letter (.code ' '.toNat)) else []) := by
  have hnext : next m ' ' = (m, if m.isInside then [.letter (.code ' '.toNat)] else []) := by
    cases h with
    | code => rfl
    | comment => rfl
    | broken => rfl
    | inside f =>
      have hquote : (' ' == f.quote) = false := by
        unfold Fence.quote
        split <;> rfl
      have hbars : f.bars ' ' = false := by simp [Fence.bars]
      simp [next, readInside, hquote, hbars, Mode.isInside]
  induction k with
  | zero => cases m <;> rfl
  | succ k ih =>
    rw [replicate_succ, run, hnext, ih]
    cases m.isInside <;> simp [replicate_succ]

/-! ## Lines with a margin -/

def pad (margin line : List Char) : List Char :=
  if (Text.trim line).isEmpty then line else margin ++ line

def marginOf (m : Mode) (line : List Char) : Nat :=
  if (Text.trim line).isEmpty = false ∧ m.isInside = true then 1 else 0

def margins (m : Mode) : List (List Char) → Nat
  | [] => 0
  | line :: rest => marginOf m line + margins (run m line).1 rest

def letterCount (events : List Event) : Nat :=
  events.countP fun e => match e with
    | .letter _ => true
    | .close _ => false

theorem letterCount_replicate (n : Nat) (l : Letter) :
    letterCount (List.replicate n (.letter l)) = n := by
  simp [letterCount, countP_replicate]

theorem letterCount_append (left right : List Event) :
    letterCount (left ++ right) = letterCount left + letterCount right :=
  countP_append

def Ended (lines : List (List Char)) : Prop :=
  ∀ line ∈ lines.dropLast, ∃ body c, line = body ++ [c] ∧ Text.isLineEnd c = true

theorem Ended.tail {line : List Char} {rest : List (List Char)} (h : Ended (line :: rest)) :
    Ended rest := by
  cases rest with
  | nil => exact fun _ hmem => absurd hmem not_mem_nil
  | cons next rest => exact fun l hl => h l (mem_cons_of_mem _ hl)

theorem Ended.calm {line : List Char} {rest : List (List Char)} (h : Ended (line :: rest))
    (hrest : rest ≠ []) (m : Mode) : Calm (run m line).1 := by
  obtain ⟨next, rest, rfl⟩ := exists_cons_of_ne_nil hrest
  obtain ⟨body, c, rfl, hc⟩ := h line mem_cons_self
  rw [run_append]
  exact calm_next (isIdle_of_isLineEnd hc) _

section Margin

variable (k : Nat) {m : Mode} {lines : List (List Char)}

theorem run_pad (hm : Calm m) (line : List Char) :
    run m (pad (List.replicate k ' ') line) = ((run m line).1,
      List.replicate (k * marginOf m line) (.letter (.code ' '.toNat)) ++ (run m line).2) := by
  unfold pad marginOf
  cases hblank : (Text.trim line).isEmpty with
  | true => simp
  | false =>
    rw [if_neg (by simp), run_append, run_blanks hm]
    cases m.isInside <;> simp

theorem run_flatMap_pad (hm : lines ≠ [] → Calm m) (h : Ended lines) :
    (run m (lines.flatMap (pad (List.replicate k ' ')))).1 = (run m lines.flatten).1 ∧
      letterCount (run m (lines.flatMap (pad (List.replicate k ' ')))).2 =
        letterCount (run m lines.flatten).2 + k * margins m lines ∧
      (margins m lines = 0 → (run m (lines.flatMap (pad (List.replicate k ' ')))).2 =
        (run m lines.flatten).2) := by
  induction lines generalizing m with
  | nil => exact ⟨rfl, rfl, fun _ => rfl⟩
  | cons line rest ih =>
    -- the last line need not have a line end, but nothing is read after it
    obtain ⟨hmode, hcount, heq⟩ := ih (fun hrest => h.calm hrest m) h.tail
    rw [flatMap_cons, flatten_cons, run_append, run_append,
      run_pad k (hm (cons_ne_nil line rest))]
    refine ⟨hmode, ?_, fun hzero => ?_⟩
    · simp only [letterCount_append, letterCount_replicate, hcount, margins]
      ring
    · obtain ⟨hline, hrest⟩ := Nat.add_eq_zero_iff.mp hzero
      rw [heq hrest, hline]
      rfl

end Margin

theorem margins_eq_zero_iff {m : Mode} {lines : List (List Char)} :
    margins m lines = 0 ↔ ∀ earlier line later, lines = earlier ++ line :: later →
      (Text.trim line).isEmpty = false → (run m earlier.flatten).1.isInside = false := by
  induction lines generalizing m with
  | nil => simp [margins]
  | cons first rest ih =>
    have hfirst : marginOf m first = 0 ↔
        ((Text.trim first).isEmpty = false → m.isInside = false) := by
      unfold marginOf
      cases (Text.trim first).isEmpty <;> cases m.isInside <;> simp
    rw [margins, Nat.add_eq_zero_iff, hfirst, ih]
    constructor
    · rintro ⟨hhead, htail⟩ earlier line later hsplit hblank
      cases earlier with
      | nil =>
        obtain ⟨rfl, -⟩ := cons.inj hsplit
        exact hhead hblank
      | cons e earlier =>
        obtain ⟨rfl, hrest⟩ := cons.inj hsplit
        rw [flatten_cons, run_append]
        exact htail earlier line later hrest hblank
    · intro h
      refine ⟨h [] first rest rfl, fun earlier line later hsplit hblank => ?_⟩
      have := h (first :: earlier) line later (by rw [hsplit]; rfl) hblank
      rwa [flatten_cons, run_append] at this

/-! ## Letters of literals -/

def Mode.isBetween : Mode → Bool
  | .code _ | .comment | .opened _ | .emptied _ => true
  | _ => false

def Closes (events : List Event) : Prop := ∃ init mark, events = init ++ [.close mark]

theorem Closes.append {events : List Event} (h : Closes events) (front : List Event) :
    Closes (front ++ events) := by
  obtain ⟨init, mark, rfl⟩ := h
  exact ⟨front ++ init, mark, (append_assoc _ _ _).symm⟩

theorem snd_readCode (word : List Char) (c : Char) : (readCode word c).2 = [] := by
  unfold readCode
  split_ifs <;> rfl

theorem closes_readInside {f : Fence} (h : (readInside f c).1.isBetween = true) :
    Closes (readInside f c).2 := by
  by_cases hclose : (c == f.quote) = true ∧ f.triple = false
  · rw [readInside, if_pos hclose.1, if_neg (by simp [hclose.2])]
    exact ⟨[], f.mark, rfl⟩
  · unfold readInside at h
    split_ifs at h
    all_goals simp_all [Mode.isBetween]

theorem isBetween_readEscape (f : Fence) (c : Char) : (readEscape f c).1.isBetween = false := by
  unfold readEscape
  dsimp only
  split
  · rfl
  split
  · rfl
  split
  · rfl
  split
  · rfl
  split
  · rfl
  split
  · rfl
  split
  · rfl
  split <;> rfl

theorem closes_next {m : Mode} (h : (next m c).1.isBetween = true) :
    Closes (next m c).2 ∨ (next m c).2 = [] ∧ m.isBetween = true := by
  cases m with
  | code word => exact .inr ⟨snd_readCode word c, rfl⟩
  | comment =>
    rw [next]
    split_ifs <;> exact .inr ⟨rfl, rfl⟩
  | opened f =>
    rw [next] at h ⊢
    split_ifs with hquote
    · exact .inr ⟨rfl, rfl⟩
    · rw [if_neg hquote] at h
      exact .inl (closes_readInside h)
  | emptied f =>
    rw [next] at h ⊢
    split_ifs with hquote
    · rw [if_pos hquote] at h
      cases h
    · rw [snd_readCode]
      exact .inl ⟨[], f.mark, rfl⟩
  | inside f quotes =>
    rw [next] at h ⊢
    split_ifs with hquote hlast
    · exact .inl ⟨[], f.mark, rfl⟩
    · rw [if_pos hquote, if_neg hlast] at h
      cases h
    · rw [if_neg hquote] at h
      exact .inl ((closes_readInside h).append _)
  | escaped f => exact absurd h (by simp [next, isBetween_readEscape])
  | octal f n digits =>
    rw [next] at h ⊢
    split
    next d hd =>
      simp only [hd] at h
      cases h
    next hnone =>
      simp only [hnone] at h
      exact .inl ((closes_readInside h).append [_])
  | hex f n missing =>
    rw [next] at h
    split at h
    · cases h
    · split_ifs at h <;> cases h
  | naming f cs =>
    cases cs <;> rw [next] at h <;> split_ifs at h <;> cases h
  | broken => cases h

theorem closes_run {m : Mode} {cs : List Char} (h : (run m cs).1.isBetween = true) :
    Closes (run m cs).2 ∨ (run m cs).2 = [] ∧ m.isBetween = true := by
  induction cs generalizing m with
  | nil => exact .inr ⟨rfl, h⟩
  | cons c rest ih =>
    rw [run] at h ⊢
    rcases ih h with hrest | ⟨hrest, hbetween⟩
    · exact .inl (hrest.append _)
    · rw [hrest, append_nil]
      exact closes_next hbetween

def size (ls : List Literal) : Nat := (ls.map fun l => l.letters.length).sum

theorem size_gather (read : List Letter) {events : List Event} (h : Closes events) :
    size (gather read events) = read.length + letterCount events := by
  obtain ⟨init, mark, rfl⟩ := h
  induction init generalizing read with
  | nil => simp [gather, size, letterCount]
  | cons e init ih =>
    cases e with
    | letter l =>
      have hcount : letterCount (.letter l :: (init ++ [.close mark])) =
        letterCount (init ++ [.close mark]) + 1 := by simp [letterCount]
      rw [cons_append, gather, ih, hcount, length_cons]
      omega
    | close mark' =>
      have hcount : letterCount (.close mark' :: (init ++ [.close mark])) =
        letterCount (init ++ [.close mark]) := by simp [letterCount]
      have hsize (l : Literal) (ls : List Literal) : size (l :: ls) = l.letters.length + size ls := by
        simp [size]
      rw [cons_append, gather, hsize, ih, hcount, length_reverse, length_nil, Nat.zero_add]

theorem size_literals {cs : List Char} {last : List Event}
    (h : finish (run (.code []) cs).1 = some last) :
    size (gather [] ((run (.code []) cs).2 ++ last)) = letterCount (run (.code []) cs).2 := by
  cases hmode : (run (.code []) cs).1 with
  | code word | comment =>
    rw [hmode] at h
    obtain rfl := some.inj h
    rw [append_nil]
    have hbetween : (run (.code []) cs).1.isBetween = true := by
      rw [hmode]
      rfl
    rcases closes_run hbetween with hclose | ⟨hnil, -⟩
    · rw [size_gather [] hclose, length_nil, Nat.zero_add]
    · rw [hnil]
      rfl
  | emptied f =>
    rw [hmode] at h
    obtain rfl := some.inj h
    rw [size_gather [] ⟨_, f.mark, rfl⟩, letterCount_append]
    simp [letterCount]
  | opened f | inside f n | escaped f | octal f n d | hex f n d | naming f cs | broken =>
    rw [hmode] at h
    cases h

/-! ## Indented scripts -/

section Lines

variable {c : Char}

theorem isLineEnd_eq_false_ne (h : Text.isLineEnd c = false) : c ≠ '\r' := by
  rintro rfl
  exact absurd h (by decide)

theorem linesFrom_of_isLineEnd (h : Text.isLineEnd c = true) (hc : c ≠ '\r')
    (line rest : List Char) :
    Text.linesFrom line (c :: rest) = (line.reverse ++ [c]) :: Text.linesFrom [] rest := by
  rw [Text.linesFrom, if_pos h, reverse_cons]
  exact fun _ heq => absurd heq hc

theorem linesFrom_of_not_isLineEnd (h : Text.isLineEnd c = false) (line rest : List Char) :
    Text.linesFrom line (c :: rest) = Text.linesFrom (c :: line) rest := by
  rw [Text.linesFrom, if_neg (by simp [h])]
  exact fun _ heq => absurd heq (isLineEnd_eq_false_ne h)

theorem flatten_linesFrom (line cs : List Char) :
    (Text.linesFrom line cs).flatten = line.reverse ++ cs := by
  fun_induction Text.linesFrom line cs with
  | case1 line hline => simp_all
  | case2 line hline => simp
  | case3 line rest ih => simp [ih]
  | case4 line c rest hc hend ih => simp [ih]
  | case5 line c rest hc hend ih => simp [ih]

theorem ended_linesFrom (line cs : List Char) : Ended (Text.linesFrom line cs) := by
  have hcons {first : List Char} {rest : List (List Char)}
      (hfirst : ∃ body c, first = body ++ [c] ∧ Text.isLineEnd c = true) (hrest : Ended rest) :
      Ended (first :: rest) := by
    cases rest with
    | nil => exact fun _ hmem => absurd hmem not_mem_nil
    | cons second rest => exact forall_mem_cons.mpr ⟨hfirst, hrest⟩
  fun_induction Text.linesFrom line cs with
  | case1 line hline => exact fun _ hmem => absurd hmem not_mem_nil
  | case2 line hline => exact fun _ hmem => absurd hmem not_mem_nil
  | case3 line rest ih => exact hcons ⟨_, '\n', reverse_cons, rfl⟩ ih
  | case4 line c rest hc hend ih => exact hcons ⟨_, c, reverse_cons, hend⟩ ih
  | case5 line c rest hc hend ih => exact ih

theorem unixEnds_cons_of_ne (h : c ≠ '\r') (rest : List Char) :
    unixEnds (c :: rest) = c :: unixEnds rest := by
  rw [unixEnds]
  · exact fun _ heq => absurd heq h
  · exact h

theorem unixEnds_append {left : List Char} (h : '\r' ∉ left) (right : List Char) :
    unixEnds (left ++ right) = left ++ unixEnds right := by
  induction left with
  | nil => rfl
  | cons d left ih =>
    rw [mem_cons, not_or] at h
    rw [cons_append, unixEnds_cons_of_ne (Ne.symm h.1), ih h.2, cons_append]

theorem unixEnds_return {rest : List Char} (h : rest.head? ≠ some '\n') :
    unixEnds ('\r' :: rest) = '\n' :: unixEnds rest := by
  rw [unixEnds]
  rintro tail rfl
  exact h rfl

theorem isEmpty_trim (cs : List Char) : (Text.trim cs).isEmpty = cs.all Text.isBlank := by
  have hright (ds : List Char) : Text.trimRight ds = [] ↔ ∀ d ∈ ds, Text.isBlank d = true := by
    simp [Text.trimRight, List.dropWhile_eq_nil_iff]
  rw [Bool.eq_iff_iff, List.isEmpty_iff, List.all_eq_true, Text.trim, hright, Text.trimLeft]
  constructor
  · intro h d hd
    rw [← takeWhile_append_dropWhile (p := Text.isBlank) (l := cs)] at hd
    rcases mem_append.mp hd with htake | hdrop
    · exact mem_takeWhile_imp htake
    · exact h d hdrop
  · exact fun h d hd => h d ((dropWhile_suffix _).subset hd)

variable (k : Nat)

theorem head?_flatMap_pad {lines : List (List Char)}
    (h : (lines.flatMap (pad (List.replicate k ' '))).head? = some '\n') :
    lines.flatten.head? = some '\n' := by
  induction lines with
  | nil => cases h
  | cons line rest ih =>
    rw [flatMap_cons, pad] at h
    rw [flatten_cons]
    cases line with
    | nil => exact ih (by simpa [Text.trim, Text.trimLeft, Text.trimRight] using h)
    | cons d line =>
      split at h
      · exact h
      · cases k with
        | zero => exact h
        | succ k => exact absurd (some.inj h) (by decide)

theorem pad_append (margin line : List Char) {ends : List Char}
    (h : ends.all Text.isBlank = true) : pad margin (line ++ ends) = pad margin line ++ ends := by
  unfold pad
  rw [isEmpty_trim, isEmpty_trim, all_append, h, Bool.and_true]
  split
  · rfl
  · exact (append_assoc _ _ _).symm

theorem return_not_mem_pad {line : List Char} (h : '\r' ∉ line) :
    '\r' ∉ pad (List.replicate k ' ') line.reverse := by
  have hreverse : '\r' ∉ line.reverse := by simpa using h
  unfold pad
  split
  · exact hreverse
  · rw [mem_append, not_or]
    exact ⟨by simp, hreverse⟩

theorem isBlank_of_isLineEnd (h : Text.isLineEnd c = true) : Text.isBlank c = true := by
  obtain rfl | rfl | rfl | rfl | rfl | rfl | rfl | rfl | rfl | rfl := eq_of_isLineEnd h <;> decide

theorem unixEnds_flatMap_pad (line cs : List Char) (hline : '\r' ∉ line) :
    unixEnds ((Text.linesFrom line cs).flatMap (pad (List.replicate k ' '))) =
      (Text.linesFrom line (unixEnds cs)).flatMap (pad (List.replicate k ' ')) := by
  fun_induction Text.linesFrom line cs with
  | case1 line hempty => simp_all [unixEnds, Text.linesFrom]
  | case2 line hempty =>
    rw [unixEnds, Text.linesFrom, if_neg hempty, flatMap_singleton,
      ← append_nil (pad _ _), unixEnds_append (return_not_mem_pad k hline)]
    rfl
  | case3 line rest ih =>
    have hfirst : pad (List.replicate k ' ') ('\n' :: '\r' :: line).reverse =
        pad (List.replicate k ' ') line.reverse ++ ['\r', '\n'] := by
      rw [reverse_cons, reverse_cons, append_assoc]
      exact pad_append _ _ (by decide)
    rw [unixEnds, linesFrom_of_isLineEnd rfl (by decide), flatMap_cons, flatMap_cons,
      pad_append _ _ (by decide), ← ih not_mem_nil, hfirst, append_assoc,
      unixEnds_append (return_not_mem_pad k hline), append_assoc]
    rfl
  | case4 line c rest hc hend ih =>
    have hblank : [c].all Text.isBlank = true := by simp [isBlank_of_isLineEnd hend]
    rw [flatMap_cons, reverse_cons, pad_append _ _ hblank, append_assoc,
      unixEnds_append (return_not_mem_pad k hline), singleton_append]
    by_cases hreturn : c = '\r'
    · subst hreturn
      have hrest : rest.head? ≠ some '\n' := by
        intro h
        cases rest with
        | nil => cases h
        | cons d rest => exact hc rest rfl (by rw [some.inj h])
      have hlines : ((Text.linesFrom [] rest).flatMap (pad (List.replicate k ' '))).head? ≠
          some '\n' := by
        intro h
        have := head?_flatMap_pad k h
        rw [flatten_linesFrom] at this
        exact hrest this
      rw [unixEnds_return hrest, linesFrom_of_isLineEnd rfl (by decide), flatMap_cons,
        pad_append _ _ (by decide), ← ih not_mem_nil, append_assoc,
        unixEnds_return hlines, singleton_append]
    · rw [unixEnds_cons_of_ne hreturn, unixEnds_cons_of_ne hreturn,
        linesFrom_of_isLineEnd hend hreturn, flatMap_cons, pad_append _ _ hblank,
        ← ih not_mem_nil, append_assoc, singleton_append]
  | case5 line c rest hc hend ih =>
    have hother : Text.isLineEnd c = false := by simpa using hend
    rw [unixEnds_cons_of_ne (isLineEnd_eq_false_ne hother), linesFrom_of_not_isLineEnd hother]
    exact ih (by simp [hline, (isLineEnd_eq_false_ne hother).symm])

end Lines

theorem toList_indent (margin s : String) :
    (Text.indent margin s).toList = (Text.linesFrom [] s.toList).flatMap (pad margin.toList) := by
  unfold Text.indent Text.lines
  rw [String.toList_join, List.map_map, List.flatMap_map]
  refine congrArg (fun f => List.flatMap f _) (funext fun line => ?_)
  simp only [Function.comp, pad, String.toList_ofList]
  split
  · exact String.toList_ofList
  · rw [String.toList_append, String.toList_ofList]

theorem literals_indent_iff {k : Nat} (hk : k ≠ 0) (s : String) :
    literals (Text.indent (String.ofList (List.replicate k ' ')) s) = literals s ↔
      literals s = none ∨ ¬ SpansLines s := by
  obtain ⟨lines, hlines⟩ : ∃ lines, lines = Text.linesFrom [] (unixEnds s.toList) := ⟨_, rfl⟩
  have hindent : unixEnds (Text.indent (String.ofList (List.replicate k ' ')) s).toList =
      lines.flatMap (pad (List.replicate k ' ')) := by
    rw [toList_indent, String.toList_ofList, unixEnds_flatMap_pad k [] _ not_mem_nil, hlines]
  have hplain : lines.flatten = unixEnds s.toList := hlines ▸ flatten_linesFrom [] _
  have hspans : SpansLines s ↔ margins (.code []) lines ≠ 0 := by
    rw [Ne, margins_eq_zero_iff, SpansLines, hlines]
    push Not
    simp only [Bool.not_eq_false]
  have hended : Ended lines := hlines ▸ ended_linesFrom [] _
  obtain ⟨hmode, hcount, heq⟩ := run_flatMap_pad k (fun _ => .code) hended
  rw [← hindent, hplain] at hmode hcount heq
  cases hfinish : finish (run (.code []) (unixEnds s.toList)).1 with
  | none => simp [literals, hmode, hfinish]
  | some last =>
    have hread : literals s = some (gather [] ((run (.code []) (unixEnds s.toList)).2 ++ last)) := by
      simp [literals, hfinish]
    have hfinish' := hfinish
    rw [← hmode] at hfinish'
    have hread' : literals (Text.indent (String.ofList (List.replicate k ' ')) s) =
        some (gather [] ((run (.code []) (unixEnds
          (Text.indent (String.ofList (List.replicate k ' ')) s).toList)).2 ++ last)) := by
      simp [literals, hfinish']
    have hsome : literals s ≠ none := by simp [hread]
    rw [or_iff_right hsome, hspans, not_not]
    constructor
    · intro hsame
      rw [hread, hread'] at hsame
      have hsize := congrArg size (some.inj hsame)
      rw [size_literals hfinish, size_literals hfinish', hcount] at hsize
      have hprod : k * margins (.code []) lines = 0 := by omega
      exact (Nat.mul_eq_zero.mp hprod).resolve_left hk
    · intro hzero
      rw [hread, hread', heq hzero]

end Flowscript.Source
