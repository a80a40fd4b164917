import Flowscript.Identifier
import Mathlib.Data.List.Chain
import Mathlib.Data.List.DropRight

/-!
# Raw identifiers

A raw identifier is valid and no keyword, whatever characters beyond ASCII may begin and continue
identifiers. It has no two underscores in a row, and one at its end only if nothing else is left or
to set it apart from a keyword. A raw identifier is its own raw identifier.
-/

namespace Flowscript.Identifier

open List

variable {c : Char} {cs : List Char} {s : String}

@[elab_as_elim]
theorem of_isAscii {p : Char → Prop} (hc : Text.isAscii c = true) (h : ∀ n < 128, p (Char.ofNat n)) :
    p c := by
  rw [Text.isAscii, decide_eq_true_eq] at hc
  rw [← Char.ofNat_toNat c]
  exact h _ hc

theorem isAscii_of_isAsciiWord (h : isAsciiWord c = true) : Text.isAscii c = true := by
  simp only [isAsciiWord, Text.isAsciiLetter, Text.isAsciiLower, Text.isAsciiUpper, Text.isAsciiDigit,
    Bool.or_eq_true, Bool.and_eq_true, decide_eq_true_eq, Char.le_def, UInt32.le_iff_toNat_le,
    beq_iff_eq] at h
  rw [Text.isAscii, decide_eq_true_eq]
  rcases h with ((⟨-, h⟩ | ⟨-, h⟩) | ⟨-, h⟩) | rfl
  · exact Nat.lt_of_le_of_lt h (by decide)
  · exact Nat.lt_of_le_of_lt h (by decide)
  · exact Nat.lt_of_le_of_lt h (by decide)
  · decide

/-- The characters that begin an identifier and those that continue one; of the ASCII characters
these are the usual ones. -/
structure Alphabet where
  start : Char → Bool
  next : Char → Bool
  next_of_start : ∀ c, start c = true → next c = true
  ascii : ∀ c, Text.isAscii c = true →
    start c = (Text.isAsciiLetter c || c == '_') ∧ next c = isAsciiWord c

def unicode : Alphabet where
  start := isStart
  next := isContinue
  next_of_start c h := by simp [isContinue, h]
  ascii c h := by
    simp only [isStart, isContinue, isAsciiWord, h, if_true, true_and]
    rw [Bool.or_right_comm]

/-! ## Steps to a raw identifier -/

theorem of_mem_blot {allowed : Char → Bool} (hline : allowed '_' = true) (h : c ∈ blot allowed cs) :
    allowed c = true := by
  obtain ⟨b, -, rfl⟩ := mem_map.mp h
  by_cases hb : allowed b = true
  · rwa [if_pos hb]
  · rwa [if_neg hb]

theorem blot_of_all {allowed : Char → Bool} (h : ∀ c ∈ cs, allowed c = true) :
    blot allowed cs = cs := by
  unfold blot
  conv_rhs => rw [← map_id cs]
  exact map_congr_left fun c hc => if_pos (h c hc)

theorem guardStart_of_head {start : Char → Bool} (hc : cs.head? = some c) (h : start c = true) :
    guardStart start cs = cs := by
  cases cs with
  | nil => cases hc
  | cons b rest =>
    cases hc
    rw [guardStart, if_pos h]

theorem head?_guardStart {start : Char → Bool} (h : (guardStart start cs).head? = some c) :
    c = '_' ∨ cs.head? = some c := by
  cases cs with
  | nil => cases h
  | cons b rest =>
    rw [guardStart] at h
    split at h
    · exact .inr h
    · exact .inl (Option.some.inj h).symm

theorem head?_blot {allowed : Char → Bool} (h : (blot allowed cs).head? = some c) :
    c = '_' ∨ cs.head? = some c := by
  cases cs with
  | nil => cases h
  | cons b rest =>
    obtain rfl : (if allowed b = true then b else '_') = c := Option.some.inj h
    split
    · exact .inr rfl
    · exact .inl rfl

def Sparse (cs : List Char) : Prop := cs.IsChain fun a b => ¬ (a = '_' ∧ b = '_')

theorem sparse_collapse (cs : List Char) : Sparse (collapse cs) := by
  unfold Sparse
  fun_induction collapse cs with
  | case1 => exact .nil
  | case2 rest rest' hrest ih =>
    rw [hrest] at ih
    exact ih
  | case3 rest hrest ih =>
    refine isChain_cons.mpr ⟨fun b hb hboth => ?_, ih⟩
    cases hcs : collapse rest with
    | nil =>
      rw [hcs] at hb
      cases hb
    | cons c tail =>
      rw [hcs] at hb
      cases hb
      exact hrest tail (by rw [hcs, hboth.2])
  | case4 c rest hc ih =>
    exact isChain_cons.mpr ⟨fun b hb hboth => hc hboth.1, ih⟩

theorem collapse_of_sparse (h : Sparse cs) : collapse cs = cs := by
  unfold Sparse at h
  fun_induction collapse cs with
  | case1 => rfl
  | case2 rest rest' hrest ih =>
    obtain ⟨hhead, htail⟩ := isChain_cons.mp h
    rw [ih htail] at hrest
    rw [hrest] at hhead
    exact absurd ⟨rfl, rfl⟩ (hhead '_' rfl)
  | case3 rest hrest ih => rw [ih (isChain_cons.mp h).2]
  | case4 c rest hc ih => rw [ih (isChain_cons.mp h).2]

theorem head?_collapse (cs : List Char) : (collapse cs).head? = cs.head? := by
  fun_induction collapse cs <;> rfl

theorem mem_of_mem_collapse (h : c ∈ collapse cs) : c ∈ cs := by
  fun_induction collapse cs with
  | case1 => exact h
  | case2 rest rest' hrest ih =>
    rw [hrest] at ih
    exact (mem_cons.mp h).elim (fun h => h ▸ mem_cons_self)
      fun h => mem_cons_of_mem _ (ih (mem_cons_of_mem _ h))
  | case3 rest hrest ih =>
    exact (mem_cons.mp h).elim (fun h => h ▸ mem_cons_self)
      fun h => mem_cons_of_mem _ (ih h)
  | case4 b rest hb ih =>
    exact (mem_cons.mp h).elim (fun h => h ▸ mem_cons_self)
      fun h => mem_cons_of_mem _ (ih h)

theorem isPrefix_stripEnd (cs : List Char) : stripEnd cs <+: cs := rdropWhile_prefix _ _

theorem head?_stripEnd (h : stripEnd cs ≠ []) : (stripEnd cs).head? = cs.head? := by
  obtain ⟨tail, htail⟩ := isPrefix_stripEnd cs
  conv_rhs => rw [← htail]
  exact (head?_append_of_ne_nil _ h).symm

theorem trimLeft_of_head (h : ∀ c, cs.head? = some c → Text.isBlank c = false) :
    Text.trimLeft cs = cs := by
  cases cs with
  | nil => rfl
  | cons c rest =>
    rw [Text.trimLeft, dropWhile_cons_of_neg]
    simp [h c rfl]

/-! ## Alphabets -/

namespace Alphabet

variable (A : Alphabet)

def isValid : List Char → Bool
  | [] => false
  | c :: rest => A.start c && rest.all A.next

def fit (cs : List Char) : List Char :=
  if cs.all Text.isAscii then
    guardStart (fun c => !Text.isAsciiDigit c) (blot isAsciiWord cs)
  else guardStart A.start (blot A.next cs)

/-- The raw identifier of a name where identifiers are made of these characters. -/
def raw (s : String) : String :=
  match Text.trimLeft s.toList with
  | [] => "_"
  | cs => match stripEnd (collapse (A.fit cs)) with
    | [] => "_"
    | cs => avoidKeyword (String.ofList cs)

theorem start_line : A.start '_' = true := (A.ascii '_' rfl).1

theorem next_line : A.next '_' = true := (A.ascii '_' rfl).2

variable {A}

theorem isValid_iff :
    A.isValid cs = true ↔
      (∃ c, cs.head? = some c ∧ A.start c = true) ∧ ∀ c ∈ cs, A.next c = true := by
  cases cs with
  | nil => simp [isValid]
  | cons c rest =>
    simp only [isValid, Bool.and_eq_true, all_eq_true, head?_cons, Option.some.injEq,
      exists_eq_left', forall_mem_cons]
    constructor
    · rintro ⟨hstart, hrest⟩
      exact ⟨hstart, A.next_of_start c hstart, hrest⟩
    · rintro ⟨hstart, -, hrest⟩
      exact ⟨hstart, hrest⟩

theorem isValid_guardStart {start : Char → Bool} (hcs : cs ≠ [])
    (hstart : ∀ c ∈ cs, start c = true → A.start c = true) (hnext : ∀ c ∈ cs, A.next c = true) :
    A.isValid (guardStart start cs) = true := by
  cases cs with
  | nil => exact absurd rfl hcs
  | cons c rest =>
    rw [guardStart]
    split
    · next hc => exact isValid_iff.mpr ⟨⟨c, rfl, hstart c mem_cons_self hc⟩, hnext⟩
    · refine isValid_iff.mpr ⟨⟨'_', rfl, A.start_line⟩, ?_⟩
      exact forall_mem_cons.mpr ⟨A.next_line, hnext⟩

theorem isValid_fit (h : cs ≠ []) : A.isValid (A.fit cs) = true := by
  have hblot (allowed : Char → Bool) : blot allowed cs ≠ [] := by simpa [blot] using h
  unfold fit
  split
  · have hword (c : Char) (hc : c ∈ blot isAsciiWord cs) : isAsciiWord c = true := of_mem_blot rfl hc
    refine isValid_guardStart (hblot _) (fun c hc hdigit => ?_) fun c hc => ?_
    · rw [(A.ascii c (isAscii_of_isAsciiWord (hword c hc))).1]
      simpa [isAsciiWord, show Text.isAsciiDigit c = false by simpa using hdigit] using hword c hc
    · rw [(A.ascii c (isAscii_of_isAsciiWord (hword c hc))).2]
      exact hword c hc
  · exact isValid_guardStart (hblot _) (fun _ _ hc => hc) fun c hc => of_mem_blot A.next_line hc

theorem fit_of_isValid (h : A.isValid cs = true) : A.fit cs = cs := by
  obtain ⟨⟨c, hc, hstart⟩, hall⟩ := isValid_iff.mp h
  unfold fit
  split
  · next hascii =>
    rw [all_eq_true] at hascii
    rw [blot_of_all fun b hb => (A.ascii b (hascii b hb)).2 ▸ hall b hb]
    have hdigit : (Text.isAsciiLetter c || c == '_') = true → (!Text.isAsciiDigit c) = true :=
      of_isAscii (hascii c (mem_of_head? hc)) (by decide +kernel)
    exact guardStart_of_head hc (hdigit ((A.ascii c (hascii c (mem_of_head? hc))).1 ▸ hstart))
  · rw [blot_of_all hall]
    exact guardStart_of_head hc hstart

/-- What the raw identifier of a name is cut down to before a keyword is avoided. -/
structure Trimmed (A : Alphabet) (cs : List Char) : Prop where
  valid : A.isValid cs = true
  sparse : Sparse cs
  stripped : stripEnd cs = cs
  trimmed : Text.trimLeft cs = cs

theorem trimmed_of_trimLeft {text : List Char} (hcs : Text.trimLeft text = cs)
    (hid : stripEnd (collapse (A.fit cs)) ≠ []) : A.Trimmed (stripEnd (collapse (A.fit cs))) := by
  have hne : cs ≠ [] := by
    rintro rfl
    exact hid (by simp [fit, blot, guardStart, collapse, stripEnd])
  have hhead : (stripEnd (collapse (A.fit cs))).head? = (A.fit cs).head? :=
    (head?_stripEnd hid).trans (head?_collapse _)
  obtain ⟨hstart, hall⟩ := isValid_iff.mp (A.isValid_fit hne)
  refine ⟨isValid_iff.mpr ⟨hhead ▸ hstart, fun b hb => ?_⟩, ?_, ?_, trimLeft_of_head fun c hc => ?_⟩
  · exact hall b (mem_of_mem_collapse ((isPrefix_stripEnd _).subset hb))
  · exact List.IsChain.prefix (sparse_collapse _) (isPrefix_stripEnd _)
  · exact rdropWhile_idempotent _ _
  · rw [hhead] at hc
    have hfirst : c = '_' ∨ cs.head? = some c := by
      unfold fit at hc
      split at hc
      · exact (head?_guardStart hc).elim .inl head?_blot
      · exact (head?_guardStart hc).elim .inl head?_blot
    rcases hfirst with rfl | hfirst
    · decide
    · have hblank := head?_dropWhile_not Text.isBlank text
      rw [show text.dropWhile Text.isBlank = cs from hcs, hfirst] at hblank
      exact hblank

theorem raw_cases (A : Alphabet) (s : String) :
    A.raw s = "_" ∨ ∃ cs, A.Trimmed cs ∧
      (isKeyword (String.ofList cs) = true ∧ A.raw s = String.ofList cs ++ "_" ∨
        isKeyword (String.ofList cs) = false ∧ A.raw s = String.ofList cs) := by
  unfold raw
  split
  · exact .inl rfl
  · split
    · exact .inl rfl
    · next hid =>
      refine .inr ⟨_, trimmed_of_trimLeft rfl hid, ?_⟩
      unfold avoidKeyword
      split
      · next hword => exact .inl ⟨hword, rfl⟩
      · next hword => exact .inr ⟨Bool.eq_false_iff.mpr hword, rfl⟩

theorem raw_of_trimmed (h : A.Trimmed cs) :
    A.raw (String.ofList cs) = avoidKeyword (String.ofList cs) := by
  have hne : cs ≠ [] := by
    rintro rfl
    cases h.valid
  have hcut : stripEnd (collapse (A.fit cs)) = cs := by
    rw [fit_of_isValid h.valid, collapse_of_sparse h.sparse, h.stripped]
  unfold raw
  rw [String.toList_ofList, h.trimmed]
  split
  · contradiction
  · rw [hcut]
    split
    · contradiction
    · rfl

theorem raw_of_ascii (h : s.toList.all Text.isAscii = true) : A.raw s = Identifier.raw s := by
  have hascii : (Text.trimLeft s.toList).all Text.isAscii = true :=
    all_eq_true.mpr fun c hc => all_eq_true.mp h c ((dropWhile_sublist _).subset hc)
  have hfit : A.fit (Text.trimLeft s.toList) = Identifier.fit (Text.trimLeft s.toList) := by
    rw [fit, Identifier.fit, if_pos hascii, if_pos hascii]
  cases hcs : Text.trimLeft s.toList with
  | nil => simp only [raw, Identifier.raw, hcs]
  | cons c rest =>
    rw [hcs] at hfit
    simp only [raw, Identifier.raw, hcs]
    exact hfit ▸ rfl

theorem isValid_append_line (h : A.isValid cs = true) (n : Nat) :
    A.isValid (cs ++ List.replicate n '_') = true := by
  cases cs with
  | nil => cases h
  | cons c rest =>
    obtain ⟨hstart, hrest⟩ := Bool.and_eq_true_iff.mp h
    simpa [isValid, hstart, A.next_line] using hrest

theorem isValid_raw (A : Alphabet) (s : String) : A.isValid (A.raw s).toList = true := by
  rcases A.raw_cases s with h | ⟨cs, hcs, ⟨-, h⟩ | ⟨-, h⟩⟩
  · rw [h]
    simp [isValid, A.start_line]
  · rw [h, String.toList_append, String.toList_ofList]
    exact isValid_append_line hcs.valid 1
  · rw [h, String.toList_ofList]
    exact hcs.valid

theorem not_isKeyword_raw (A : Alphabet) (s : String) : isKeyword (A.raw s) = false := by
  have hline : ∀ word ∈ keywords, isKeyword (word ++ "_") = false := by decide +kernel
  rcases A.raw_cases s with h | ⟨cs, -, ⟨hword, h⟩ | ⟨hword, h⟩⟩
  · rw [h]
    decide
  · exact h ▸ hline _ (contains_iff_mem.mp hword)
  · exact h ▸ hword

theorem sparse_raw (A : Alphabet) (s : String) : Sparse (A.raw s).toList := by
  have hline : ∀ word ∈ keywords, (word ++ "_").toList.IsChain fun a b => ¬ (a = '_' ∧ b = '_') := by
    decide +kernel
  rcases A.raw_cases s with h | ⟨cs, hcs, ⟨hword, h⟩ | ⟨-, h⟩⟩
  · rw [h]
    exact .singleton '_'
  · exact h ▸ hline _ (contains_iff_mem.mp hword)
  · rw [h, String.toList_ofList]
    exact hcs.sparse

theorem raw_of_getLast (h : (A.raw s).toList.getLast? = some '_') :
    A.raw s = "_" ∨ ∃ word ∈ keywords, A.raw s = word ++ "_" := by
  rcases A.raw_cases s with hline | ⟨cs, hcs, ⟨hword, hraw⟩ | ⟨-, hraw⟩⟩
  · exact .inl hline
  · exact .inr ⟨_, contains_iff_mem.mp hword, hraw⟩
  · rw [hraw, String.toList_ofList] at h
    obtain ⟨front, rfl⟩ := getLast?_eq_some_iff.mp h
    have hlast := rdropWhile_eq_self_iff.mp hcs.stripped (by simp)
    simp at hlast

theorem raw_raw (A : Alphabet) (s : String) : A.raw (A.raw s) = A.raw s := by
  have hkeyword : ∀ word ∈ keywords, (word ++ "_").toList.all Text.isAscii = true ∧
      Identifier.raw (word ++ "_") = word ++ "_" := by
    decide +kernel
  rcases A.raw_cases s with h | ⟨cs, hcs, ⟨hword, h⟩ | ⟨hword, h⟩⟩
  · rw [h]
    exact raw_of_ascii rfl
  · obtain ⟨hascii, hsame⟩ := hkeyword _ (contains_iff_mem.mp hword)
    rw [h, raw_of_ascii hascii, hsame]
  · rw [h, raw_of_trimmed hcs, avoidKeyword, hword]
    rfl

/-- What a raw identifier is. -/
structure IsRaw (A : Alphabet) (id : String) : Prop where
  valid : A.isValid id.toList = true
  free : isKeyword id = false
  sparse : Sparse id.toList
  last : id.toList.getLast? = some '_' → id = "_" ∨ ∃ word ∈ keywords, id = word ++ "_"
  same : A.raw id = id

theorem isRaw_raw (A : Alphabet) (s : String) : A.IsRaw (A.raw s) :=
  ⟨A.isValid_raw s, A.not_isKeyword_raw s, A.sparse_raw s, raw_of_getLast, A.raw_raw s⟩

end Alphabet

theorem isRaw_unicode (s : String) : unicode.IsRaw (raw s) := unicode.isRaw_raw s

theorem isContinue_of_mem_raw (h : c ∈ (raw s).toList) : isContinue c = true :=
  (Alphabet.isValid_iff.mp (isRaw_unicode s).valid).2 c h

theorem raw_raw (s : String) : raw (raw s) = raw s := (isRaw_unicode s).same

/-- Whatever characters beyond ASCII make identifiers, the raw identifier of a name is valid and no
keyword, has no two underscores in a row and one at its end only if it is an underscore or a keyword
with one behind it, and is its own raw identifier. Those of Unicode are such an alphabet. -/
theorem raw_is_identifier (A : Alphabet) (s : String) :
    A.IsRaw (A.raw s) ∧ unicode.raw s = raw s ∧ unicode.IsRaw (raw s) ∧ isValid (raw s).toList = true :=
  ⟨A.isRaw_raw s, rfl, isRaw_unicode s, (isRaw_unicode s).valid⟩

end Flowscript.Identifier
