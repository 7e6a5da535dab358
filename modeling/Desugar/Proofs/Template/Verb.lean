import Desugar.Template.Syntax
import Desugar.Text
import Desugar.Proofs.Template.Nesting

/-!
# The grammar and the characters of verbs

The test for verbs is greedy: each part takes as many characters as it can, so the flags take the
zeros that a width starts with. It accepts every text that has the parts of a verb all the same.

A verb stands after the source of an embed, where brackets, literals and colons are looked for and
blanks are dropped. Nothing in a verb is taken for one of these, except a space as its first flag.

- `Verb.Parts` are the parts of a verb, and `Verb.Parts.text` is what is written from them.
- `Verb.isVerb_iff_parts`: the greedy test accepts exactly what can be written from parts.
- `Verb.plain_of_isChar` says what its characters are not.
- `Verb.trim_eq_self`: a verb that does not start with a space has no blanks to drop.
-/

namespace Desugar

/-- What a table says of all codes below 128 holds of the ASCII characters. -/
theorem ascii_of_table {p : Char → Bool}
    (htable : ((List.range 128).map Char.ofNat).all p = true) {c : Char} (hc : c.toNat < 128) :
    p c = true := by
  apply List.all_eq_true.mp htable c
  exact List.mem_map.mpr ⟨c.toNat, List.mem_range.mpr hc, Char.ofNat_toNat c⟩

/-! ## Blanks -/

namespace Blank

/-- A text without blanks at its ends is left as it is. -/
theorem trim_eq_self {cs : List Char} (hhead : ∀ c ∈ cs.head?, isBlank c = false)
    (hlast : ∀ c ∈ cs.getLast?, isBlank c = false) : trim cs = cs := by
  have hstart {ds : List Char} (h : ∀ c ∈ ds.head?, isBlank c = false) : trimStart ds = ds := by
    cases ds with
    | nil => rfl
    | cons d ds => exact List.dropWhile_cons_of_neg (by simp [h d rfl])
  rw [trim, hstart hhead, hstart (by rwa [List.head?_reverse]), List.reverse_reverse]

/-- Blanks in front are dropped. -/
theorem trim_append {front : List Char} (h : ∀ c ∈ front, isBlank c = true) (cs : List Char) :
    trim (front ++ cs) = trim cs := by
  have hstart : trimStart (front ++ cs) = trimStart cs := List.dropWhile_append_of_pos h
  rw [trim, hstart, trim]

/-- What is no blank is not dropped. -/
theorem mem_trimStart {c : Char} {cs : List Char} (hc : c ∈ cs) (hblank : isBlank c = false) :
    c ∈ trimStart cs := by
  rw [← List.takeWhile_append_dropWhile (p := isBlank) (l := cs)] at hc
  rcases List.mem_append.mp hc with hc | hc
  · have htaken := List.all_eq_true.mp List.all_takeWhile c hc
    rw [hblank] at htaken
    cases htaken
  · exact hc

/-- What is not blank is left. -/
theorem mem_trim {c : Char} {cs : List Char} (hc : c ∈ cs) (hblank : isBlank c = false) :
    c ∈ trim cs := by
  have hstart := mem_trimStart hc hblank
  exact List.mem_reverse.mpr (mem_trimStart (List.mem_reverse.mpr hstart) hblank)

end Blank

/-! ## Verbs -/

namespace Verb

/-- A precision as it is written, with the point before it. -/
def precisionText : Option (List Char) → List Char
  | some digits => '.' :: digits
  | none => []

/-- The parts of a verb. A zero may count as a flag or belong to the width, so a verb can be taken
apart in several ways. -/
structure Parts where
  flags : List Char
  width : List Char
  precision : Option (List Char)
  letter : Char
  flags_mem : ∀ c ∈ flags, c ∈ ['+', '-', '#', ' ', '0']
  width_digits : ∀ c ∈ width, c.isDigit = true
  precision_digits : ∀ digits ∈ precision, ∀ c ∈ digits, c.isDigit = true
  letter_mem : letter ∈ "vTtbcdoOqxXUeEfFgGspw".toList

namespace Parts

/-- The verb as it is written. -/
def text (p : Parts) : List Char :=
  p.flags ++ (p.width ++ (precisionText p.precision ++ [p.letter]))

theorem isFlag_flags (p : Parts) : ∀ c ∈ p.flags, isFlag c = true :=
  fun c hc => List.contains_iff_mem.mpr (p.flags_mem c hc)

theorem isLetter_letter (p : Parts) : isLetter p.letter = true :=
  List.contains_iff_mem.mpr p.letter_mem

/-- The letter of a verb is no flag, no digit and no point. -/
theorem letter_plain (p : Parts) :
    isFlag p.letter = false ∧ p.letter.isDigit = false ∧ p.letter ≠ '.' := by
  have htable : "vTtbcdoOqxXUeEfFgGspw".toList.all
      (fun c => !isFlag c && !c.isDigit && c != '.') = true := by decide
  have hletter := List.all_eq_true.mp htable p.letter p.letter_mem
  simp only [Bool.and_eq_true, Bool.not_eq_true', bne_iff_ne] at hletter
  exact ⟨hletter.1.1, hletter.1.2, hletter.2⟩

/-- Neither a flag nor a digit stands after the width. -/
theorem head_tail (p : Parts) (rest : List Char) :
    ∃ c cs, precisionText p.precision ++ p.letter :: rest = c :: cs ∧
      isFlag c = false ∧ c.isDigit = false := by
  obtain ⟨hflag, hdigit, -⟩ := p.letter_plain
  cases p.precision with
  | none => exact ⟨p.letter, rest, rfl, hflag, hdigit⟩
  | some digits => exact ⟨'.', digits ++ p.letter :: rest, rfl, by decide, by decide⟩

/-- Dropping the precision of a verb leads to its letter. -/
theorem dropPrecision_append (p : Parts) (rest : List Char) :
    dropPrecision (precisionText p.precision ++ p.letter :: rest) = p.letter :: rest := by
  obtain ⟨-, hdigit, hpoint⟩ := p.letter_plain
  cases hprecision : p.precision with
  | none =>
    rw [precisionText, List.nil_append, dropPrecision]
    intro cs hcs
    exact hpoint (List.cons.inj hcs).1
  | some digits =>
    rw [precisionText, List.cons_append, dropPrecision,
      List.dropWhile_append_of_pos (p.precision_digits digits hprecision)]
    exact List.dropWhile_cons_of_neg (by simp [hdigit])

/-- Flags and digits that are dropped greedily end where flags and width do. -/
theorem dropWhile_text (p : Parts) (rest : List Char) :
    ((p.text ++ rest).dropWhile isFlag).dropWhile Char.isDigit =
      precisionText p.precision ++ p.letter :: rest := by
  obtain ⟨c, cs, htail, hflag, hdigit⟩ := p.head_tail rest
  have htext : p.text ++ rest = p.flags ++ (p.width ++ (c :: cs)) := by
    rw [← htail]
    simp [text]
  -- the flags go on over the zeros that the width starts with, and the digits stop at its end
  have hflags : (p.width ++ c :: cs).dropWhile isFlag = p.width.dropWhile isFlag ++ c :: cs := by
    rw [List.dropWhile_append, List.dropWhile_cons_of_neg (by simp [hflag])]
    split
    · next hempty => rw [List.isEmpty_iff.mp hempty, List.nil_append]
    · rfl
  have hwidth : ∀ d ∈ p.width.dropWhile isFlag, d.isDigit = true :=
    fun d hd => p.width_digits d ((List.dropWhile_sublist _).subset hd)
  rw [htext, htail, List.dropWhile_append_of_pos p.isFlag_flags, hflags,
    List.dropWhile_append_of_pos hwidth]
  exact List.dropWhile_cons_of_neg (by simp [hdigit])

/-- What is written from parts is a verb. -/
theorem isVerbChars_text (p : Parts) : isVerbChars p.text = true := by
  have htail : dropPrecision ((p.text.dropWhile isFlag).dropWhile Char.isDigit) = [p.letter] := by
    rw [← List.append_nil p.text, p.dropWhile_text, p.dropPrecision_append]
  rw [isVerbChars, htail]
  exact p.isLetter_letter

end Parts

/-- Before the letter that is left when the precision is dropped, there is only a precision. -/
theorem exists_precision {cs : List Char} {letter : Char} (h : dropPrecision cs = [letter]) :
    ∃ precision, cs = precisionText precision ++ [letter] ∧
      ∀ digits ∈ precision, ∀ c ∈ digits, c.isDigit = true := by
  unfold dropPrecision at h
  split at h
  · next cs =>
    refine ⟨some (cs.takeWhile Char.isDigit), ?_, ?_⟩
    · rw [← h, precisionText, List.cons_append, List.takeWhile_append_dropWhile]
    · rintro digits ⟨⟩
      exact List.all_eq_true.mp List.all_takeWhile
  · exact ⟨none, h, by rintro digits ⟨⟩⟩

/-- A verb consists of flags, a width, a precision and a letter. -/
theorem exists_parts {cs : List Char} (h : isVerbChars cs = true) : ∃ p : Parts, cs = p.text := by
  unfold isVerbChars at h
  split at h
  · next letter hletter =>
    obtain ⟨precision, hprecision, hdigits⟩ := exists_precision hletter
    -- flags and width are what was dropped
    refine ⟨⟨cs.takeWhile isFlag, (cs.dropWhile isFlag).takeWhile Char.isDigit, precision, letter,
      fun c hc => ?_, ?_, hdigits, List.contains_iff_mem.mp h⟩, ?_⟩
    · exact List.contains_iff_mem.mp (List.all_eq_true.mp List.all_takeWhile c hc)
    · exact List.all_eq_true.mp List.all_takeWhile
    · rw [Parts.text, ← hprecision, List.takeWhile_append_dropWhile,
        List.takeWhile_append_dropWhile]
  · cases h

/-- A text is a verb exactly if it can be written as flags, a width, perhaps a precision, and a
letter, in whatever way its zeros are divided between the flags and the width. -/
theorem isVerb_iff_parts (v : String) : isVerb v = true ↔ ∃ p : Parts, v.toList = p.text := by
  constructor
  · exact exists_parts
  · rintro ⟨p, hp⟩
    rw [isVerb, hp]
    exact p.isVerbChars_text

/-- The characters of verbs. -/
def isChar (c : Char) : Bool := isFlag c || c.isDigit || c == '.' || isLetter c

/-- A verb consists of the characters of verbs. -/
theorem isChar_of_mem {cs : List Char} (h : isVerbChars cs = true) {c : Char} (hc : c ∈ cs) :
    isChar c = true := by
  obtain ⟨p, rfl⟩ := exists_parts h
  simp only [Parts.text, List.mem_append, List.mem_singleton] at hc
  rcases hc with hc | hc | hc | rfl
  · simp [isChar, p.isFlag_flags c hc]
  · simp [isChar, p.width_digits c hc]
  · cases hprecision : p.precision with
    | none => simp [hprecision, precisionText] at hc
    | some digits =>
      rw [hprecision, precisionText, List.mem_cons] at hc
      rcases hc with rfl | hc
      · rfl
      · simp [isChar, p.precision_digits digits hprecision c hc]
  · simp [isChar, p.isLetter_letter]

theorem toNat_lt_of_isChar {c : Char} (h : isChar c = true) : c.toNat < 128 := by
  have hflags : ['+', '-', '#', ' ', '0'].all (·.toNat < 128) = true := by decide
  have hletters : "vTtbcdoOqxXUeEfFgGspw".toList.all (·.toNat < 128) = true := by decide
  simp only [isChar, isFlag, isLetter, Bool.or_eq_true, List.contains_iff_mem, beq_iff_eq] at h
  rcases h with ((h | h) | rfl) | h
  · exact of_decide_eq_true (List.all_eq_true.mp hflags c h)
  · simp only [Char.isDigit, Bool.and_eq_true, decide_eq_true_eq, UInt32.le_iff_toNat_le] at h
    exact Nat.lt_of_le_of_lt h.2 (by decide)
  · decide
  · exact of_decide_eq_true (List.all_eq_true.mp hletters c h)

/-- The characters of verbs open and close nothing, none is a colon, and the only blank is the
space. -/
theorem isChar_table : ((List.range 128).map Char.ofNat).all (fun c => !isChar c ||
    (Nesting.isPlain c && c != ':' && (c == ' ' || !Blank.isBlank c))) = true := by
  decide +kernel

/-- The characters of verbs are neither brackets nor quotes nor colons, and only the space is a
blank. -/
theorem plain_of_isChar {c : Char} (h : isChar c = true) :
    Nesting.isPlain c = true ∧ c ≠ ':' ∧ (c ≠ ' ' → Blank.isBlank c = false) := by
  have hc := ascii_of_table isChar_table (toNat_lt_of_isChar h)
  simp only [h, Bool.not_true, Bool.false_or, Bool.and_eq_true, Bool.or_eq_true, bne_iff_ne,
    beq_iff_eq, Bool.not_eq_true'] at hc
  exact ⟨hc.1.1, hc.1.2, hc.2.resolve_left⟩

/-- A verb that does not start with a space has no blanks at its ends. -/
theorem trim_eq_self {cs : List Char} (h : isVerbChars cs = true) (hhead : cs.head? ≠ some ' ') :
    Blank.trim cs = cs := by
  apply Blank.trim_eq_self
  · intro c hc
    apply (plain_of_isChar (isChar_of_mem h (List.mem_of_mem_head? hc))).2.2
    rintro rfl
    exact hhead hc
  · intro c hc
    apply (plain_of_isChar (isChar_of_mem h (List.mem_of_getLast? hc))).2.2
    -- the last character is the letter
    obtain ⟨p, rfl⟩ := exists_parts h
    simp only [Parts.text, ← List.append_assoc, List.getLast?_concat, Option.mem_some_iff] at hc
    rintro rfl
    have hletter := p.isLetter_letter
    rw [hc] at hletter
    cases hletter

end Verb

end Desugar
