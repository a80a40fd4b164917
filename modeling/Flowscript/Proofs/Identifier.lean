import Flowscript.Proofs.RawIdentifier

/-!
# The characters of identifiers

Identifiers are made of characters that may continue one, and of what these become in another case.
So they have word characters only: of the ASCII ones these are the letters, the digits and the
underscore. No mark of the script language is among them, and no blank.
-/

namespace Flowscript.Identifier

open List

variable {b c : Char} {cs : List Char} {s : String}

def isWord (c : Char) : Bool := !Text.isAscii c || isAsciiWord c

theorem isWord_of_isAsciiWord (h : isAsciiWord c = true) : isWord c = true := by
  simp [isWord, h]

theorem isWord_of_isContinue (h : isContinue c = true) : isWord c = true := by
  by_cases hascii : Text.isAscii c = true
  · exact isWord_of_isAsciiWord ((unicode.ascii c hascii).2 ▸ h)
  · simp [isWord, hascii]

/-! ## Case -/

section Case

variable {p : Char → Bool}

def rowLeadsTo (p : Char → Bool) (row : Nat × Nat × Nat × Int) : Bool :=
  (decide (128 ≤ row.1 + row.2.2.2) && (decide (row.2.1 + row.2.2.2 < 0xD800) ||
    (decide (0xDFFF < row.1 + row.2.2.2) && decide (row.2.1 + row.2.2.2 < 0x110000)))) ||
  (row.1 == row.2.1 && p (Char.ofNat (row.1 + row.2.2.2).toNat))

def expandsTo (p : Char → Bool) (expansions : List (Nat × List Nat)) : Bool :=
  expansions.all fun row => row.2.all fun n => p (Char.ofNat n)

theorem not_isAscii_ofNat {n : Nat} (hlow : 128 ≤ n) (hvalid : n.isValidChar) :
    Text.isAscii (Char.ofNat n) = false := by
  have hn : (Char.ofNat n).toNat = n := by
    rw [Char.ofNat, dif_pos hvalid]
    rfl
  simp [Text.isAscii, hn]
  omega

theorem of_rowLeadsTo (hwide : ∀ c, Text.isAscii c = false → p c = true) {lo hi stride : Nat} {d : Int}
    (h : rowLeadsTo p (lo, hi, stride, d) = true) {n : Nat} (hlo : lo ≤ n) (hhi : n ≤ hi) :
    p (Char.ofNat (n + d).toNat) = true := by
  simp only [rowLeadsTo, Bool.or_eq_true, Bool.and_eq_true, decide_eq_true_eq, beq_iff_eq] at h
  rcases h with ⟨hlow, hvalid⟩ | ⟨rfl, hp⟩
  · exact hwide _ (not_isAscii_ofNat (by omega) (by unfold Nat.isValidChar; omega))
  · obtain rfl : n = lo := by omega
    exact hp

theorem of_mem_mapCase {isSource : Char → Bool} {ascii : Int} {rows : List (Nat × Nat × Nat × Int)}
    {expansions : List (Nat × List Nat)}
    (hrows : ∀ row ∈ rows, ∀ n, row.1 ≤ n → n ≤ row.2.1 → p (Char.ofNat (n + row.2.2.2).toNat) = true)
    (hexpansions : expandsTo p expansions = true)
    (hsource : isSource c = true → p (Char.ofNat (c.toNat + ascii).toNat) = true)
    (hother : (Text.isAscii c = true → isSource c = false) → p c = true)
    (hb : b ∈ Text.mapCase isSource ascii rows expansions c) : p b = true := by
  unfold Text.mapCase at hb
  simp only at hb
  split at hb
  · split at hb
    next hs => exact mem_singleton.mp hb ▸ hsource hs
    next hs => exact mem_singleton.mp hb ▸ hother fun _ => by simpa using hs
  next hascii =>
    split at hb
    next codes hcodes =>
      obtain ⟨n, hn, rfl⟩ := mem_map.mp hb
      obtain ⟨front, back, rfl, -⟩ := lookup_eq_some_iff.mp hcodes
      have hrow := all_eq_true.mp hexpansions (c.toNat, codes) (by simp)
      exact all_eq_true.mp hrow n hn
    · split at hb
      next d hd =>
        obtain ⟨⟨lo, hi, stride, d'⟩, hfind, rfl⟩ := Option.map_eq_some_iff.mp hd
        have hspan := find?_some hfind
        simp only [Bool.and_eq_true, decide_eq_true_eq] at hspan
        exact mem_singleton.mp hb ▸
          hrows _ (mem_of_find?_eq_some hfind) _ hspan.1.1 hspan.1.2
      · exact mem_singleton.mp hb ▸ hother fun h => absurd h hascii

theorem of_rowsLeadTo (hwide : ∀ c, Text.isAscii c = false → p c = true)
    {rows : List (Nat × Nat × Nat × Int)} (h : rows.all (rowLeadsTo p) = true) :
    ∀ row ∈ rows, ∀ n, row.1 ≤ n → n ≤ row.2.1 → p (Char.ofNat (n + row.2.2.2).toNat) = true :=
  fun row hrow _ hlo hhi => of_rowLeadsTo hwide (all_eq_true.mp h row hrow) hlo hhi

/-- A property that the characters of identifiers have, and keep when their case changes. -/
structure Kept (p : Char → Bool) : Prop where
  continues : ∀ c, isContinue c = true → p c = true
  upper : ∀ c b, p c = true → b ∈ Text.upperChar c → p b = true
  lower : ∀ c b, p c = true → b ∈ Text.lowerChar c → p b = true

end Case

theorem toNat_of_isAsciiLower (h : Text.isAsciiLower c = true) : 97 ≤ c.toNat ∧ c.toNat ≤ 122 := by
  simp only [Text.isAsciiLower, Bool.and_eq_true, decide_eq_true_eq, Char.le_def,
    UInt32.le_iff_toNat_le] at h
  exact h

theorem toNat_of_isAsciiUpper (h : Text.isAsciiUpper c = true) : 65 ≤ c.toNat ∧ c.toNat ≤ 90 := by
  simp only [Text.isAsciiUpper, Bool.and_eq_true, decide_eq_true_eq, Char.le_def,
    UInt32.le_iff_toNat_le] at h
  exact h

theorem isContinue_ofNat_letter :
    ∀ n < 123, 65 ≤ n → n ≤ 90 ∨ 97 ≤ n → isContinue (Char.ofNat n) = true := by
  decide

theorem kept_of_rows {p : Char → Bool} (hcontinues : ∀ c, isContinue c = true → p c = true)
    (hupper : ∀ row ∈ Text.upperShifts, ∀ n, row.1 ≤ n → n ≤ row.2.1 →
      p (Char.ofNat (n + row.2.2.2).toNat) = true)
    (hlower : ∀ row ∈ Text.lowerShifts, ∀ n, row.1 ≤ n → n ≤ row.2.1 →
      p (Char.ofNat (n + row.2.2.2).toNat) = true)
    (hupperTo : expandsTo p Text.upperExpansions = true)
    (hlowerTo : expandsTo p Text.lowerExpansions = true) : Kept p where
  continues := hcontinues
  upper c b hc hb := by
    refine of_mem_mapCase hupper hupperTo (fun hsource => hcontinues _ ?_) (fun _ => hc) hb
    have := toNat_of_isAsciiLower hsource
    exact isContinue_ofNat_letter _ (by omega) (by omega) (by omega)
  lower c b hc hb := by
    refine of_mem_mapCase hlower hlowerTo (fun hsource => hcontinues _ ?_) (fun _ => hc) hb
    have := toNat_of_isAsciiUpper hsource
    exact isContinue_ofNat_letter _ (by omega) (by omega) (by omega)

theorem isWord_of_not_isAscii (c : Char) (h : Text.isAscii c = false) : isWord c = true := by
  simp [isWord, h]

theorem kept_isWord : Kept isWord :=
  kept_of_rows (fun _ => isWord_of_isContinue)
    (of_rowsLeadTo isWord_of_not_isAscii (by decide +kernel))
    (of_rowsLeadTo isWord_of_not_isAscii (by decide +kernel)) (by decide +kernel) (by decide +kernel)

theorem not_isAsciiUpper_of_mem_lowerChar (hb : b ∈ Text.lowerChar c) :
    Text.isAsciiUpper b = false := by
  have hletter : ∀ n < 123, 97 ≤ n → (!Text.isAsciiUpper (Char.ofNat n)) = true := by decide
  have hwide (c : Char) (h : Text.isAscii c = false) : (!Text.isAsciiUpper c) = true := by
    simp only [Text.isAscii, decide_eq_false_iff_not] at h
    simp only [Text.isAsciiUpper, Bool.not_eq_true', Bool.and_eq_false_iff, decide_eq_false_iff_not,
      Char.le_def, UInt32.le_iff_toNat_le]
    refine .inr fun hle => h ?_
    have hhigh : c.toNat ≤ 90 := hle
    omega
  have hlower := of_mem_mapCase (p := fun c => !Text.isAsciiUpper c)
    (of_rowsLeadTo hwide (by decide +kernel)) (by decide +kernel) (fun hupper => ?_) (fun hother => ?_) hb
  · simpa using hlower
  · have := toNat_of_isAsciiUpper hupper
    exact hletter _ (by omega) (by omega)
  · by_cases hascii : Text.isAscii c = true
    · rw [hother hascii]
      rfl
    · exact hwide c (by simpa using hascii)

theorem not_isAsciiUpper_of_mem_lowerFrom {before : List Char} (hb : b ∈ Text.lowerFrom before cs) :
    Text.isAsciiUpper b = false := by
  induction cs generalizing before with
  | nil => cases hb
  | cons c rest ih =>
    rw [Text.lowerFrom, mem_append] at hb
    rcases hb with hb | hb
    · split at hb
      · rw [mem_singleton] at hb
        subst hb
        split <;> decide
      · exact not_isAsciiUpper_of_mem_lowerChar hb
    · exact ih hb

theorem Kept.of_mem_lowerFrom {p : Char → Bool} (hp : Kept p) {before : List Char}
    (h : ∀ c ∈ cs, p c = true) (hb : b ∈ Text.lowerFrom before cs) : p b = true := by
  induction cs generalizing before with
  | nil => cases hb
  | cons c rest ih =>
    rw [Text.lowerFrom, mem_append] at hb
    rcases hb with hb | hb
    · split at hb
      · rw [mem_singleton] at hb
        subst hb
        refine hp.continues _ ?_
        split <;> decide
      · exact hp.lower c b (h c mem_cons_self) hb
    · exact ih (fun c hc => h c (mem_cons_of_mem _ hc)) hb

/-! ## Identifiers by use -/

theorem mem_splitWords (h : c ∈ splitWords cs) : c ∈ cs ∨ c = '_' := by
  fun_induction splitWords cs with
  | case1 a b rest _ ih => grind
  | case2 a b rest _ ih => grind
  | case3 cs => exact .inl h

namespace Kept

variable {p : Char → Bool} {s : String} {c : Char}

theorem of_mem_joinWords (hp : Kept p) (hcs : ∀ c ∈ cs, p c = true) (hb : b ∈ joinWords cs) :
    p b = true := by
  fun_induction joinWords cs with
  | case1 c rest _ ih =>
    rcases mem_append.mp hb with hb | hb
    · exact hp.upper c b (hcs c (by simp)) hb
    · exact ih (fun c hc => hcs c (by simp [hc])) hb
  | case2 c rest _ ih => grind
  | case3 c rest _ ih => grind
  | case4 => cases hb

theorem of_mem_lower (hp : Kept p) (h : ∀ c ∈ s.toList, p c = true) (hb : b ∈ (Text.lower s).toList) :
    p b = true := by
  rw [Text.lower, String.toList_ofList] at hb
  exact hp.of_mem_lowerFrom h hb

theorem of_mem_raw (hp : Kept p) (h : c ∈ (raw s).toList) : p c = true :=
  hp.continues c (isContinue_of_mem_raw h)

theorem of_mem_variableId (hp : Kept p) (h : c ∈ (variableId s).toList) :
    p c = true := by
  have hlower : ∀ c ∈ (toLower (raw s)).toList, p c = true := by
    intro c hc
    refine hp.of_mem_lower (fun c hc => ?_) hc
    rw [String.toList_ofList] at hc
    rcases mem_splitWords hc with hc | rfl
    · exact hp.of_mem_raw hc
    · exact hp.continues _ (by decide)
  unfold variableId at h
  simp only at h
  split at h
  · obtain rfl : c = 'L' := by simpa using h
    exact hp.continues _ (by decide)
  · exact hlower c h

theorem of_mem_classId (hp : Kept p) (h : c ∈ (classId s).toList) :
    p c = true := by
  have hcased : ∀ c ∈ (if Text.isUpper (raw s).toList = true then Text.lower (raw s)
      else raw s).toList, p c = true := by
    intro c hc
    split at hc
    · exact hp.of_mem_lower (fun c hc => hp.of_mem_raw hc) hc
    · exact hp.of_mem_raw hc
  unfold classId toCamel at h
  simp only at h
  split at h
  · simp [Except.toOption] at h
  next first rest hid =>
    rw [hid] at hcased
    simp only [Except.toOption, Option.getD_some, String.toList_ofList] at h
    refine hp.of_mem_joinWords (fun b hb => ?_) h
    rcases mem_append.mp hb with hb | hb
    · exact hp.upper first b (hcased first mem_cons_self) hb
    · exact hcased b (mem_cons_of_mem _ hb)

end Kept

theorem isWord_of_mem_variableId (h : c ∈ (variableId s).toList) :
    isWord c = true := kept_isWord.of_mem_variableId h

theorem isWord_of_mem_classId (h : c ∈ (classId s).toList) :
    isWord c = true := kept_isWord.of_mem_classId h

theorem eq_of_mem_variableId (h : c ∈ (variableId s).toList) (hc : Text.isAsciiUpper c = true) :
    c = 'L' := by
  unfold variableId at h
  simp only at h
  split at h
  · simpa using h
  · rw [toLower, Text.lower, String.toList_ofList] at h
    rw [not_isAsciiUpper_of_mem_lowerFrom h] at hc
    cases hc

/-! ## Blanks -/

def spansApart (spans others : List (Nat × Nat)) : Bool :=
  spans.all fun a => others.all fun b => decide (a.2 < b.1) || decide (b.2 < a.1)

theorem not_inSpans_of_spansApart {spans others : List (Nat × Nat)} (h : spansApart spans others = true)
    (hc : Text.inSpans spans c = true) : Text.inSpans others c = false := by
  obtain ⟨a, ha, hin⟩ := any_eq_true.mp hc
  apply any_eq_false.mpr
  intro b hb hin'
  have hapart := all_eq_true.mp (all_eq_true.mp h a ha) b hb
  simp only [Bool.and_eq_true, Bool.or_eq_true, decide_eq_true_eq] at hin hin' hapart
  omega

def rowAvoids (spans : List (Nat × Nat)) (row : Nat × Nat × Nat × Int) : Bool :=
  spans.all fun span => decide (0 < span.1) &&
    (decide (row.2.1 + row.2.2.2 < span.1) || decide (span.2 < row.1 + row.2.2.2))

theorem not_inSpans_of_rowAvoids {spans : List (Nat × Nat)} {row : Nat × Nat × Nat × Int}
    (h : rowAvoids spans row = true) {n : Nat} (hlo : row.1 ≤ n) (hhi : n ≤ row.2.1) :
    Text.inSpans spans (Char.ofNat (n + row.2.2.2).toNat) = false := by
  -- a code that is none of a character stands for the first character
  have hcode : (Char.ofNat (n + row.2.2.2).toNat).toNat = (n + row.2.2.2).toNat ∨
      (Char.ofNat (n + row.2.2.2).toNat).toNat = 0 := by
    by_cases hvalid : (n + row.2.2.2).toNat.isValidChar
    · rw [Char.ofNat, dif_pos hvalid]
      exact .inl rfl
    · rw [Char.ofNat, dif_neg hvalid]
      exact .inr rfl
  apply any_eq_false.mpr
  intro span hspan hin
  have havoids := all_eq_true.mp h span hspan
  simp only [Bool.and_eq_true, Bool.or_eq_true, decide_eq_true_eq] at hin havoids
  omega

theorem not_isBlank_of_isContinue (h : isContinue c = true) : Text.isBlank c = false := by
  by_cases hascii : Text.isAscii c = true
  · revert h
    exact of_isAscii hascii (by decide +kernel)
  · simp only [isContinue, isStart, hascii, Bool.false_eq_true, if_false, Bool.or_eq_true] at h
    rcases h with h | h
    · exact not_inSpans_of_spansApart (by decide +kernel) h
    · exact not_inSpans_of_spansApart (by decide +kernel) h

theorem kept_not_isBlank : Kept fun c => !Text.isBlank c := by
  have havoids {rows : List (Nat × Nat × Nat × Int)} (h : rows.all (rowAvoids Text.blankSpans) = true) :
      ∀ row ∈ rows, ∀ n, row.1 ≤ n → n ≤ row.2.1 →
        (!Text.isBlank (Char.ofNat (n + row.2.2.2).toNat)) = true := by
    intro row hrow n hlo hhi
    rw [Text.isBlank, not_inSpans_of_rowAvoids (all_eq_true.mp h row hrow) hlo hhi]
    rfl
  refine kept_of_rows (fun c hc => ?_) (havoids (by decide +kernel)) (havoids (by decide +kernel))
    (by decide +kernel) (by decide +kernel)
  rw [not_isBlank_of_isContinue hc]
  rfl

end Flowscript.Identifier
