import Flowscript.Proofs.Identifier
import Mathlib.Tactic.MkIffOfInductiveProp

/-!
# Keywords among identifiers

The identifiers of an ASCII name are valid, whatever their case. A raw identifier is no keyword, but
its case is changed afterwards: small letters make a keyword of one that has capitals, and a capital
makes one of `none`, `true` and `false`. There is no keyword in capitals only.
-/

namespace Flowscript.Identifier

open List

variable {c : Char} {cs : List Char} {s : String}

/-! ## ASCII texts -/

/-- The alphabet without characters beyond ASCII. -/
def asciiOnly : Alphabet where
  start c := Text.isAsciiLetter c || c == '_'
  next := isAsciiWord
  next_of_start c h := by
    rw [isAsciiWord, Bool.or_right_comm, h]
    rfl
  ascii _ _ := ⟨rfl, rfl⟩

theorem isValid_of_asciiOnly (h : asciiOnly.isValid cs = true) : isValid cs = true := by
  obtain ⟨⟨c, hc, hstart⟩, hall⟩ := Alphabet.isValid_iff.mp h
  have hascii (b : Char) (hb : b ∈ cs) := unicode.ascii b (isAscii_of_isAsciiWord (hall b hb))
  refine (Alphabet.isValid_iff (A := unicode)).mpr ⟨⟨c, hc, ?_⟩, fun b hb => ?_⟩
  · exact (hascii c (mem_of_head? hc)).1.trans hstart
  · exact (hascii b hb).2.trans (hall b hb)

theorem isAscii_of_isValid (h : asciiOnly.isValid cs = true) : ∀ c ∈ cs, Text.isAscii c = true :=
  fun c hc => isAscii_of_isAsciiWord ((Alphabet.isValid_iff.mp h).2 c hc)

theorem isValid_raw_asciiOnly (hs : s.toList.all Text.isAscii = true) :
    asciiOnly.isValid (raw s).toList = true :=
  Alphabet.raw_of_ascii (A := asciiOnly) hs ▸ asciiOnly.isValid_raw s

/-- What the two cases of a character are, if it is an ASCII one. -/
@[mk_iff]
structure Cased (c : Char) : Prop where
  lowerChar : Text.lowerChar c = [c.toLower]
  upperChar : Text.upperChar c = [c.toUpper]
  not_sigma : (c == Text.capitalSigma) = false
  toLower : (isAsciiWord c = true → isAsciiWord c.toLower = true) ∧
    (asciiOnly.start c = true → asciiOnly.start c.toLower = true)
  toUpper : (isAsciiWord c = true → isAsciiWord c.toUpper = true) ∧
    (asciiOnly.start c = true → asciiOnly.start c.toUpper = true)
  toUpper_line : c.toUpper = '_' → c = '_'
  toUpper_toUpper : c.toUpper.toUpper = c.toUpper
  toUpper_or : c = c.toUpper ∨ c = c.toUpper.toLower
  toUpper_toLower : (!Text.isSmallChar c) = true → c.toLower.toUpper = c
  not_isAsciiLower : Text.isAsciiLower c.toUpper = false

instance : Decidable (Cased c) := decidable_of_iff _ (cased_iff c).symm

theorem cased_of_isAscii (h : Text.isAscii c = true) : Cased c := of_isAscii h (by decide +kernel)

theorem toList_lower (h : ∀ c ∈ s.toList, Text.isAscii c = true) :
    (Text.lower s).toList = s.toList.map Char.toLower := by
  rw [Text.lower, String.toList_ofList]
  generalize s.toList = cs at h
  generalize ([] : List Char) = before
  induction cs generalizing before with
  | nil => rfl
  | cons c rest ih =>
    obtain ⟨hc, hrest⟩ := forall_mem_cons.mp h
    have hcased := cased_of_isAscii hc
    rw [Text.lowerFrom, ih hrest, hcased.not_sigma, hcased.lowerChar]
    rfl

theorem toList_upper (h : ∀ c ∈ s.toList, Text.isAscii c = true) :
    (Text.upper s).toList = s.toList.map Char.toUpper := by
  rw [Text.upper, String.toList_ofList, flatMap_congr fun c hc => (cased_of_isAscii (h c hc)).upperChar]
  exact map_eq_flatMap.symm

/-! ## Valid identifiers -/

theorem isValid_splitWords (h : asciiOnly.isValid cs = true) : asciiOnly.isValid (splitWords cs) = true := by
  obtain ⟨hhead, hall⟩ := Alphabet.isValid_iff.mp h
  refine Alphabet.isValid_iff.mpr ⟨?_, fun c hc => ?_⟩
  · have hsame : (splitWords cs).head? = cs.head? := by fun_cases splitWords cs <;> rfl
    exact hsame ▸ hhead
  · rcases mem_splitWords hc with hc | rfl
    · exact hall c hc
    · rfl

theorem isValid_map {f : Char → Char} (hf : ∀ c, Text.isAscii c = true →
      (isAsciiWord c = true → isAsciiWord (f c) = true) ∧
        (asciiOnly.start c = true → asciiOnly.start (f c) = true)) (h : asciiOnly.isValid cs = true) :
    asciiOnly.isValid (cs.map f) = true := by
  obtain ⟨⟨c, hc, hstart⟩, hall⟩ := Alphabet.isValid_iff.mp h
  have hascii := isAscii_of_isValid h
  refine Alphabet.isValid_iff.mpr ⟨⟨f c, by rw [head?_map, hc]; rfl, ?_⟩, fun b hb => ?_⟩
  · exact (hf c (hascii c (mem_of_head? hc))).2 hstart
  · obtain ⟨a, ha, rfl⟩ := mem_map.mp hb
    exact (hf a (hascii a ha)).1 (hall a ha)

theorem isValid_joinWords (h : asciiOnly.isValid cs = true) : asciiOnly.isValid (joinWords cs) = true := by
  have hletter {c : Char} (hc : Text.isAsciiLetter c = true) (hword : isAsciiWord c = true) :
      asciiOnly.start c.toUpper = true :=
    (cased_of_isAscii (isAscii_of_isAsciiWord hword)).toUpper.2 (Bool.or_eq_true_iff.mpr (.inl hc))
  obtain ⟨hhead, hall⟩ := Alphabet.isValid_iff.mp h
  refine Alphabet.isValid_iff.mpr ⟨?_, ?_⟩
  · fun_cases joinWords cs with
    | case1 c rest hc =>
      have hword := hall c (by simp)
      rw [(cased_of_isAscii (isAscii_of_isAsciiWord hword)).upperChar]
      exact ⟨c.toUpper, rfl, hletter hc hword⟩
    | case2 c rest _ => exact hhead
    | case3 c rest _ => exact hhead
    | case4 => exact hhead
  · clear hhead h
    fun_induction joinWords cs with
    | case1 c rest hc ih =>
      have hword := hall c (by simp)
      rw [(cased_of_isAscii (isAscii_of_isAsciiWord hword)).upperChar]
      exact forall_mem_cons.mpr ⟨asciiOnly.next_of_start _ (hletter hc hword),
        ih fun b hb => hall b (by simp [hb])⟩
    | case2 c rest _ ih => exact forall_mem_cons.mpr ⟨rfl, ih (forall_mem_cons.mp hall).2⟩
    | case3 c rest _ ih => exact forall_mem_cons.mpr ((forall_mem_cons.mp hall).imp_right ih)
    | case4 => exact hall

section

variable {id : String} (hid : asciiOnly.isValid id.toList = true)

include hid

theorem toList_toLower : (toLower id).toList = (splitWords id.toList).map Char.toLower := by
  have hsplit := isAscii_of_isValid (isValid_splitWords hid)
  rw [toLower, toList_lower (by rwa [String.toList_ofList]), String.toList_ofList]

theorem toList_toUpper : (toUpper id).toList = (splitWords id.toList).map Char.toUpper := by
  have hsplit := isAscii_of_isValid (isValid_splitWords hid)
  rw [toUpper, toList_upper (by rwa [String.toList_ofList]), String.toList_ofList]

theorem isValid_toLower : asciiOnly.isValid (toLower id).toList = true := by
  rw [toList_toLower hid]
  exact isValid_map (fun _ hc => (cased_of_isAscii hc).toLower) (isValid_splitWords hid)

theorem isValid_toUpper : asciiOnly.isValid (toUpper id).toList = true := by
  rw [toList_toUpper hid]
  exact isValid_map (fun _ hc => (cased_of_isAscii hc).toUpper) (isValid_splitWords hid)

/-- The text that words are joined in: capitals throughout count as small letters. -/
theorem exists_toCamel : ∃ c rest, asciiOnly.isValid (c :: rest) = true ∧
    (if Text.isUpper id.toList then id.toList.map Char.toLower else id.toList) = c :: rest ∧
    toCamel id = .ok (String.ofList (joinWords (c.toUpper :: rest))) := by
  have hlower := isValid_map (fun _ hc => (cased_of_isAscii hc).toLower) hid
  have hcased : asciiOnly.isValid (if Text.isUpper id.toList then id.toList.map Char.toLower
      else id.toList) = true := by
    split
    · exact hlower
    · exact hid
  have htext : (if Text.isUpper id.toList then Text.lower id else id).toList =
      if Text.isUpper id.toList then id.toList.map Char.toLower else id.toList := by
    split
    · exact toList_lower (isAscii_of_isValid hid)
    · rfl
  cases hcs : (if Text.isUpper id.toList then id.toList.map Char.toLower else id.toList) with
  | nil =>
    rw [hcs] at hcased
    cases hcased
  | cons c rest =>
    rw [hcs] at hcased htext
    refine ⟨c, rest, hcased, rfl, ?_⟩
    simp only [toCamel, htext, (cased_of_isAscii (isAscii_of_isValid hcased c mem_cons_self)).upperChar]
    rfl

end

theorem isValid_classId (hid : asciiOnly.isValid (raw s).toList = true) :
    asciiOnly.isValid (classId s).toList = true := by
  obtain ⟨c, rest, hcs, -, hcamel⟩ := exists_toCamel hid
  have hascii := isAscii_of_isValid hcs c mem_cons_self
  obtain ⟨hc, hrest⟩ := Bool.and_eq_true_iff.mp hcs
  rw [classId, hcamel, Except.toOption, Option.getD_some, String.toList_ofList]
  exact isValid_joinWords (Bool.and_eq_true_iff.mpr ⟨(cased_of_isAscii hascii).toUpper.2 hc, hrest⟩)

/-! ## Keywords in small letters -/

/-- The keywords that begin with a capital. -/
def constants : List String := ["False", "None", "True"]

/-- A keyword has letters only, and small ones except for the capital of a constant. -/
theorem letters_of_isKeyword {word : String} (h : isKeyword word = true) :
    word.toList.all Text.isAsciiLetter = true ∧ word.toList.any Text.isAsciiLower = true ∧
      (word.toList.head?.any Text.isAsciiLower = true ∨
        word ∈ constants ∧ word.toList.tail.all Text.isAsciiLower = true) := by
  have hall : ∀ word ∈ keywords, word.toList.all Text.isAsciiLetter = true ∧
      word.toList.any Text.isAsciiLower = true ∧ (word.toList.head?.any Text.isAsciiLower = true ∨
        word ∈ constants ∧ word.toList.tail.all Text.isAsciiLower = true) := by
    decide +kernel
  exact hall word (contains_iff_mem.mp h)

theorem isAsciiLetter_of_isKeyword {word : String} (h : isKeyword word = true) :
    ∀ c ∈ word.toList, Text.isAsciiLetter c = true :=
  all_eq_true.mp (letters_of_isKeyword h).1

theorem splitWords_eq_or_mem (cs : List Char) : splitWords cs = cs ∨ '_' ∈ splitWords cs := by
  fun_induction splitWords cs with
  | case1 a b rest _ _ => exact .inr (by simp)
  | case2 a b rest _ ih => exact ih.imp (congrArg (a :: ·)) (mem_cons_of_mem a)
  | case3 cs _ => exact .inl rfl

theorem isKeyword_toLower_iff {id : String} (hid : asciiOnly.isValid id.toList = true) :
    isKeyword (toLower id) = true ↔
      isKeyword (Text.lower id) = true ∧ splitWords id.toList = id.toList := by
  constructor
  · intro h
    have hsame : splitWords id.toList = id.toList := by
      refine (splitWords_eq_or_mem _).resolve_right fun hline => ?_
      have hmem : '_' ∈ (toLower id).toList := by
        rw [toList_toLower hid]
        exact mem_map.mpr ⟨'_', hline, rfl⟩
      cases isAsciiLetter_of_isKeyword h '_' hmem
    rw [toLower, hsame, String.ofList_toList] at h
    exact ⟨h, hsame⟩
  · rintro ⟨h, hsame⟩
    rw [toLower, hsame, String.ofList_toList]
    exact h

/-! ## Keywords with a capital -/

theorem eq_line_append {s t : String} (h : s.toList = '_' :: t.toList) : s = "_" ++ t :=
  String.toList_injective (by rw [h, String.toList_append]; rfl)

/-- A constant in letters of one case only, or in any of its cases after an underscore. -/
def IsUnraised (id : String) : Prop :=
  ∃ word ∈ constants, id ∈ [Text.lower word, Text.upper word, "_" ++ word, "_" ++ Text.lower word,
    "_" ++ Text.upper word]

theorem joinWords_of_isAsciiLower (h : ∀ c ∈ joinWords cs, Text.isAsciiLower c = true) :
    joinWords cs = cs := by
  fun_induction joinWords cs with
  | case1 c rest hc ih =>
    have hascii := isAscii_of_isAsciiWord (c := c) (by rw [isAsciiWord, hc]; rfl)
    rw [(cased_of_isAscii hascii).upperChar] at h
    cases (h c.toUpper mem_cons_self).symm.trans (cased_of_isAscii hascii).not_isAsciiLower
  | case2 c rest _ _ => cases h '_' mem_cons_self
  | case3 c rest _ ih => rw [ih (forall_mem_cons.mp h).2]
  | case4 => rfl

theorem exists_of_isKeyword_joinWords {x : Char} (hx : Text.isAsciiLower x = false)
    (h : isKeyword (String.ofList (x :: joinWords cs)) = true) :
    ∃ word ∈ constants, word.toList = x :: cs := by
  rcases (letters_of_isKeyword h).2.2 with hlower | ⟨hmem, htail⟩
  · simp [hx] at hlower
  · rw [String.toList_ofList] at htail
    refine ⟨_, hmem, ?_⟩
    rw [String.toList_ofList, joinWords_of_isAsciiLower (all_eq_true.mp htail)]

/-- What a constant was joined from: the constant with either first letter, or this after an underscore. -/
theorem exists_of_isKeyword_camel {rest : List Char} (hascii : ∀ b ∈ c :: rest, Text.isAscii b = true)
    (h : isKeyword (String.ofList (joinWords (c.toUpper :: rest))) = true) :
    ∃ word ∈ constants, ∃ b tail, word.toList = b.toUpper :: tail ∧
      (c :: rest = b :: tail ∨ c :: rest = '_' :: b :: tail) := by
  have hcased (b : Char) (hb : b ∈ c :: rest) := cased_of_isAscii (hascii b hb)
  have hc := hcased c mem_cons_self
  revert h
  generalize hl : c.toUpper :: rest = l
  fun_cases joinWords l with
  | case1 b tail _ =>
    intro h
    obtain ⟨hfirst, rfl⟩ := cons.inj hl
    have hb := hcased b (by simp)
    rw [hb.upperChar] at h
    obtain ⟨word, hword, hchars⟩ := exists_of_isKeyword_joinWords hb.not_isAsciiLower h
    exact ⟨word, hword, b, tail, hchars, .inr (by rw [hc.toUpper_line hfirst])⟩
  | case2 b tail _ =>
    intro h
    cases isAsciiLetter_of_isKeyword h '_' (by simp)
  | case3 x tail _ =>
    intro h
    obtain ⟨rfl, rfl⟩ := cons.inj hl
    obtain ⟨word, hword, hchars⟩ := exists_of_isKeyword_joinWords hc.not_isAsciiLower h
    exact ⟨word, hword, c, rest, hchars, .inl rfl⟩
  | case4 => cases hl

theorem of_mem_constants {word : String} (h : word ∈ constants) : isKeyword word = true ∧
    (Text.lower word).toList = word.toList.modifyHead Char.toLower ∧
    (Text.upper word).toList = word.toList.map Char.toUpper ∧
    ∀ id ∈ [Text.lower word, Text.upper word, "_" ++ word, "_" ++ Text.lower word,
      "_" ++ Text.upper word], isKeyword ((toCamel id).toOption.getD "") = true := by
  revert word
  decide +kernel

theorem cases_of_mem_constants {word : String} {b : Char} {tail : List Char} (hword : word ∈ constants)
    (hb : Text.isAscii b = true) (h : word.toList = b.toUpper :: tail) :
    (b :: tail = word.toList ∨ b :: tail = (Text.lower word).toList) ∧
      (b :: tail).map Char.toUpper = (Text.upper word).toList := by
  obtain ⟨-, hlower, hupper, -⟩ := of_mem_constants hword
  have hcased := cased_of_isAscii hb
  rw [hlower, hupper, h, map_cons, map_cons, hcased.toUpper_toUpper]
  exact ⟨hcased.toUpper_or.imp (congrArg (· :: tail)) (congrArg (· :: tail)), rfl⟩

theorem isKeyword_classId_iff (hid : asciiOnly.isValid (raw s).toList = true)
    (hfree : isKeyword (raw s) = false) : isKeyword (classId s) = true ↔ IsUnraised (raw s) := by
  refine ⟨fun h => ?_, fun h => h.elim fun word hword => (of_mem_constants hword.1).2.2.2 _ hword.2⟩
  obtain ⟨c, rest, hcs, htext, hcamel⟩ := exists_toCamel hid
  rw [classId, hcamel, Except.toOption, Option.getD_some] at h
  have hascii := isAscii_of_isValid hcs
  obtain ⟨word, hword, b, tail, hchars, hplain⟩ := exists_of_isKeyword_camel hascii h
  have hb := hascii b (by rcases hplain with hplain | hplain <;> simp [hplain])
  obtain ⟨hcase, hupper⟩ := cases_of_mem_constants hword hb hchars
  refine ⟨word, hword, ?_⟩
  by_cases hcapitals : Text.isUpper (raw s).toList = true
  · have hsame : (raw s).toList = (c :: rest).map Char.toUpper := by
      rw [← htext, if_pos hcapitals, map_map]
      conv_lhs => rw [← map_id (raw s).toList]
      refine map_congr_left fun a ha => ?_
      have hcased := cased_of_isAscii (isAscii_of_isValid hid a ha)
      exact (hcased.toUpper_toLower (all_eq_true.mp (Bool.and_eq_true_iff.mp hcapitals).2 a ha)).symm
    rcases hplain with hplain | hplain
    · rw [hplain, hupper] at hsame
      simp [String.toList_injective hsame]
    · rw [hplain, map_cons, hupper] at hsame
      simp [eq_line_append hsame]
  · rw [if_neg hcapitals] at htext
    rcases hplain with hplain | hplain
    · rcases hcase with hcase | hcase
      · have hid := String.toList_injective (htext.trans (hplain.trans hcase))
        rw [hid, (of_mem_constants hword).1] at hfree
        cases hfree
      · simp [String.toList_injective (htext.trans (hplain.trans hcase))]
    · rw [hplain] at htext
      rcases hcase with hcase | hcase
      · simp [eq_line_append (hcase ▸ htext)]
      · simp [eq_line_append (hcase ▸ htext)]

theorem isKeyword_toUpper {id : String} (hid : asciiOnly.isValid id.toList = true) :
    isKeyword (toUpper id) = false := by
  refine Bool.eq_false_iff.mpr fun h => ?_
  obtain ⟨c, hc, hlower⟩ := any_eq_true.mp (letters_of_isKeyword h).2.1
  rw [toList_toUpper hid] at hc
  obtain ⟨a, ha, rfl⟩ := mem_map.mp hc
  have hascii := isAscii_of_isValid (isValid_splitWords hid) a ha
  cases hlower.symm.trans (cased_of_isAscii hascii).not_isAsciiLower

/-- The identifiers of an ASCII name are valid. The ones in small letters are keywords exactly if the
raw identifier is one in other letters and no capital in it follows a small letter, the one of a
class exactly if it is a constant in another case, and the one of a constant never. -/
theorem identifiers_usable_iff (hs : s.toList.all Text.isAscii = true) :
    (∀ id ∈ [moduleId s, functionId s, variableId s, classId s, constantId s],
      isValid id.toList = true) ∧
    (∀ id ∈ [moduleId s, functionId s, variableId s], isKeyword id = true ↔
      isKeyword (Text.lower (raw s)) = true ∧ splitWords (raw s).toList = (raw s).toList) ∧
    (isKeyword (classId s) = true ↔ IsUnraised (raw s)) ∧
    isKeyword (constantId s) = false := by
  have hid := isValid_raw_asciiOnly hs
  have hfree : isKeyword (raw s) = false :=
    Alphabet.raw_of_ascii (A := unicode) hs ▸ unicode.not_isKeyword_raw s
  have hlower := isValid_of_asciiOnly (isValid_toLower hid)
  have hsmall := isKeyword_toLower_iff hid
  have hvariable : variableId s = "L" ∧ toLower (raw s) = "i" ∨ variableId s = toLower (raw s) := by
    by_cases hi : toLower (raw s) = "i"
    · exact .inl ⟨by simp [variableId, hi], hi⟩
    · exact .inr (by simp [variableId, hi])
  refine ⟨?_, ?_, isKeyword_classId_iff hid hfree, isKeyword_toUpper hid⟩
  · simp only [List.forall_mem_cons]
    refine ⟨hlower, hlower, ?_, isValid_of_asciiOnly (isValid_classId hid),
      isValid_of_asciiOnly (isValid_toUpper hid), by simp⟩
    rcases hvariable with ⟨hL, -⟩ | hsame
    · rw [hL]
      exact isValid_of_asciiOnly rfl
    · rw [hsame]
      exact hlower
  · simp only [List.forall_mem_cons]
    refine ⟨hsmall, hsmall, ?_, by simp⟩
    rcases hvariable with ⟨hL, hi⟩ | hsame
    · rw [← hsmall, hL, hi]
      simp [isKeyword, keywords]
    · rw [hsame]
      exact hsmall

theorem identifiers_usable_iff_shouting :
    isKeyword (variableId "IF") = true ∧ isKeyword (classId "none") = true := by
  refine ⟨((identifiers_usable_iff (s := "IF") (by decide +kernel)).2.1 _ (by simp)).mpr ?_,
    (identifiers_usable_iff (s := "none") (by decide +kernel)).2.2.1.mpr ?_⟩
  · exact ⟨by decide +kernel, by decide +kernel⟩
  · exact ⟨"None", by decide +kernel, by decide +kernel⟩

end Flowscript.Identifier
