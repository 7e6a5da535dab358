import Mathlib.Data.List.Basic

/-!
# Tokens of the base language

A text is split into words, operators and punctuation, and at each place the longest token that
fits there is taken: `<--x` is the receive operator and then a minus, `a &^ b` has one operator.
Blanks part tokens and comments stand for blanks. Literals are not read.

* `lex` splits a text.
* `Scans` says that a text begins with given tokens, and what remains after them. It composes
  along a concatenation, so the tokens of a text are found piece by piece.
* `spells_word` and `Scans.symbol` read a single token: what follows an identifier or a keyword is
  no part of a word, and what follows a symbol makes no longer one of it.
-/

namespace Desugar.Lexical

/-- The letters and digits outside ASCII. -/
structure Alphabet where
  letter : Char → Bool
  digit : Char → Bool

namespace Alphabet

/-- A word can begin with the character. -/
def isLetter (A : Alphabet) (c : Char) : Bool :=
  if c.toNat < 128 then c.isAlpha || c == '_' else A.letter c

/-- A word can go on with the character. -/
def isPart (A : Alphabet) (c : Char) : Bool :=
  A.isLetter c || (if c.toNat < 128 then c.isDigit else A.digit c)

end Alphabet

/-- A token. -/
inductive Token where
  | ident (name : String)
  | keyword (name : String)
  | symbol (text : String)
  /-- The end of a line, which can end a statement. -/
  | newline
deriving DecidableEq

/-- The words that are no identifiers. -/
def keywords : List String :=
  ["break", "case", "chan", "const", "continue", "default", "defer", "else", "fallthrough", "for",
    "func", "go", "goto", "if", "import", "interface", "map", "package", "range", "return",
    "select", "struct", "switch", "type", "var"]

/-- Operators, punctuation and the openings of comments, the longest ones first. -/
def symbols : List String :=
  ["<<=", ">>=", "&^=", "...",
    "+=", "-=", "*=", "/=", "%=", "&=", "|=", "^=", "<<", ">>", "&^", "&&", "||", "<-", "++", "--",
    "==", "!=", "<=", ">=", ":=", "//", "/*",
    "+", "-", "*", "/", "%", "&", "|", "^", "<", ">", "=", "!", "~", "(", ")", "[", "]",
    "\x7b", "\x7d", ",", ";", ".", ":"]

/-- The symbol opens a comment. -/
def isComment (symbol : String) : Bool := symbol == "//" || symbol == "/*"

/-- The longest symbol that a text begins with. -/
def munch (text : List Char) : Option String := symbols.find? (·.toList.isPrefixOf text)

/-- The token of a word. -/
def word (name : List Char) : Token :=
  let name := String.ofList name
  if name ∈ keywords then .keyword name else .ident name

/-- What follows a comment that is already open, with the end of line that it stands for if it
runs over several lines. -/
def skipComment : List Char → Option (List Token × List Char)
  | [] => none
  | '*' :: '/' :: rest => some ([], rest)
  | c :: rest => do
    let (tokens, rest) ← skipComment rest
    some (if c = '\n' then [.newline] else tokens, rest)

/-- Something is read of every comment. -/
theorem length_skipComment {text rest : List Char} {tokens : List Token}
    (h : skipComment text = some (tokens, rest)) : rest.length < text.length := by
  fun_induction skipComment text generalizing tokens with
  | case1 => cases h
  | case2 rest =>
    cases h
    simp only [List.length_cons]
    omega
  | case3 c text _ ih =>
    obtain ⟨⟨ts, r⟩, hr, heq⟩ := Option.bind_eq_some_iff.mp h
    cases heq
    have := ih hr
    simp only [List.length_cons]
    omega

theorem length_dropWhile_lt (p : Char → Bool) (c : Char) (cs : List Char) :
    (cs.dropWhile p).length < (c :: cs).length :=
  Nat.lt_succ_of_le (cs.dropWhile_suffix p).length_le

/-- The tokens of a text. -/
def lex (A : Alphabet) (text : List Char) : Option (List Token) :=
  match text with
  | [] => some []
  | c :: cs =>
    if c = '\n' then (lex A cs).map (.newline :: ·)
    else if c = ' ' ∨ c = '\t' ∨ c = '\r' then lex A cs
    else if A.isLetter c then
      (lex A (cs.dropWhile A.isPart)).map (word (c :: cs.takeWhile A.isPart) :: ·)
    else
      match munch (c :: cs) with
      | none => none
      | some symbol =>
        if symbol = "//" then lex A (cs.dropWhile (· != '\n'))
        else if symbol = "/*" then
          match h : skipComment (cs.drop 1) with
          | none => none
          | some (tokens, rest) =>
            have := length_skipComment h
            (lex A rest).map (tokens ++ ·)
        else (lex A (cs.drop (symbol.length - 1))).map (.symbol symbol :: ·)
termination_by text.length
decreasing_by
  · exact Nat.lt_succ_self _
  · exact Nat.lt_succ_self _
  · exact length_dropWhile_lt _ _ _
  · exact length_dropWhile_lt _ _ _
  · simp only [List.length_drop] at this
    simp only [List.length_cons]
    omega
  · simp only [List.length_cons, List.length_drop]
    omega

/-! ## Longest match -/

/-- The longest symbol is a symbol that the text begins with. -/
theorem mem_of_munch {text : List Char} {s : String} (h : munch text = some s) :
    s ∈ symbols ∧ s.toList <+: text := by
  have hfits := List.find?_some h
  exact ⟨List.mem_of_find?_eq_some h, List.isPrefixOf_iff_prefix.mp hfits⟩

/-- No symbol that a text begins with is longer than the one that is taken. -/
theorem length_le_of_munch {text : List Char} {s t : String} (h : munch text = some s)
    (ht : t ∈ symbols) (htext : t.toList <+: text) : t.length ≤ s.length := by
  have hsorted : symbols.Pairwise fun s t => t.length ≤ s.length := by decide +kernel
  obtain ⟨-, before, after, hsplit, hbefore⟩ := List.find?_eq_some_iff_append.mp h
  rw [hsplit] at ht hsorted
  rcases List.mem_append.mp ht with hmem | hmem
  · -- a symbol in front of the one that was found does not fit
    have hnot := hbefore t hmem
    rw [List.isPrefixOf_iff_prefix.mpr htext] at hnot
    cases hnot
  · rcases List.mem_cons.mp hmem with rfl | hmem
    · exact Nat.le_refl _
    · exact (List.pairwise_cons.mp (List.pairwise_append.mp hsorted).2.1).1 t hmem

example : munch "<--x".toList = some "<-" := by decide +kernel

/-- A longer symbol begins with the symbol and then the character. -/
def grows (s : String) (c : Char) : Bool :=
  symbols.any fun t => (s.toList ++ [c]).isPrefixOf t.toList

/-- A symbol is taken if what follows makes no longer symbol of it. -/
theorem munch_append {s : String} {rest : List Char} (hs : s ∈ symbols)
    (hrest : ∀ c ∈ rest.head?, grows s c = false) : munch (s.toList ++ rest) = some s := by
  have hfits : s.toList <+: s.toList ++ rest := List.prefix_append ..
  obtain ⟨t, ht⟩ : ∃ t, munch (s.toList ++ rest) = some t :=
    Option.isSome_iff_exists.mp
      (List.find?_isSome.mpr ⟨s, hs, List.isPrefixOf_iff_prefix.mpr hfits⟩)
  obtain ⟨hmem, htext⟩ := mem_of_munch ht
  obtain ⟨more, hmore⟩ : s.toList <+: t.toList :=
    List.prefix_of_prefix_length_le hfits htext (length_le_of_munch ht hs hfits)
  cases more with
  | nil =>
    rw [List.append_nil, String.toList_inj] at hmore
    rw [ht, hmore]
  | cons c more =>
    -- the first character that `t` has beyond `s` is the first one of the rest
    rw [← hmore, List.prefix_append_right_inj] at htext
    obtain ⟨last, rfl⟩ := htext
    have hgrows : grows s c = true :=
      List.any_eq_true.mpr ⟨t, hmem, List.isPrefixOf_iff_prefix.mpr ⟨more, by simp [← hmore]⟩⟩
    rw [hrest c rfl] at hgrows
    cases hgrows

/-! ## Scanning -/

/-- A text begins with the tokens and goes on with `rest`. -/
def Scans (A : Alphabet) (text : List Char) (tokens : List Token) (rest : List Char) : Prop :=
  lex A text = (lex A rest).map (tokens ++ ·)

/-- No word goes on with the text. -/
def Alphabet.Parts (A : Alphabet) (rest : List Char) : Prop :=
  ∀ c ∈ rest.head?, A.isPart c = false

/-- The text has the tokens wherever no word goes on after it. -/
def Spells (A : Alphabet) (text : List Char) (tokens : List Token) : Prop :=
  ∀ rest, A.Parts rest → Scans A (text ++ rest) tokens rest

/-- The text is a word of letters and digits, and no keyword. -/
def Alphabet.isIdentifier (A : Alphabet) (name : String) : Bool :=
  match name.toList with
  | [] => false
  | c :: cs => A.isLetter c && cs.all A.isPart && decide (name ∉ keywords)

variable {A : Alphabet}

theorem Scans.refl (text : List Char) : Scans A text [] text := by
  simp [Scans]

/-- What is scanned after some tokens adds to them. -/
theorem Scans.trans {text middle rest : List Char} {first second : List Token}
    (hfirst : Scans A text first middle) (hsecond : Scans A middle second rest) :
    Scans A text (first ++ second) rest := by
  unfold Scans at *
  rw [hfirst, hsecond, Option.map_map]
  simp only [Function.comp_def, List.append_assoc]

/-- A blank is no token. -/
theorem Scans.blank (rest : List Char) : Scans A (" ".toList ++ rest) [] rest := by
  have hblank : " ".toList ++ rest = ' ' :: rest := rfl
  unfold Scans
  rw [hblank, lex]
  simp

/-- A text has the tokens that it spells, since nothing follows it. -/
theorem Spells.lex_eq {text : List Char} {tokens : List Token} (h : Spells A text tokens) :
    lex A text = some tokens := by
  have hscans : Scans A (text ++ []) tokens [] := h [] (by rintro c ⟨⟩)
  unfold Scans at hscans
  rw [List.append_nil] at hscans
  rw [hscans, lex]
  simp

/-- A word ends where no word goes on. -/
theorem takeWhile_append_of_parts {cs rest : List Char} (hcs : cs.all A.isPart = true)
    (hrest : A.Parts rest) : (cs ++ rest).takeWhile A.isPart = cs := by
  rw [List.takeWhile_append_of_pos (List.all_eq_true.mp hcs)]
  cases rest with
  | nil => simp
  | cons c rest => simp [hrest c rfl]

theorem dropWhile_append_of_parts {cs rest : List Char} (hcs : cs.all A.isPart = true)
    (hrest : A.Parts rest) : (cs ++ rest).dropWhile A.isPart = rest := by
  rw [List.dropWhile_append_of_pos (List.all_eq_true.mp hcs)]
  cases rest with
  | nil => rfl
  | cons c rest => simp [hrest c rfl]

/-- A letter is no blank. -/
theorem not_blank_of_isLetter {c : Char} (h : A.isLetter c = true) :
    c ≠ '\n' ∧ ¬ (c = ' ' ∨ c = '\t' ∨ c = '\r') := by
  refine ⟨?_, ?_⟩
  · rintro rfl
    cases h
  · rintro (rfl | rfl | rfl) <;> cases h

/-- An identifier is a letter, followed by letters and digits, and no keyword. -/
theorem Alphabet.isIdentifier_iff {name : String} : A.isIdentifier name = true ↔
    ∃ c cs, name.toList = c :: cs ∧ A.isLetter c = true ∧ cs.all A.isPart = true ∧
      name ∉ keywords := by
  unfold Alphabet.isIdentifier
  cases hname : name.toList with
  | nil => simp
  | cons c cs => simp [and_assoc]

/-- A letter with letters and digits after it is a single token. -/
theorem spells_word {name : String} {c : Char} {cs : List Char} (hchars : name.toList = c :: cs)
    (hc : A.isLetter c = true) (hcs : cs.all A.isPart = true) :
    Spells A name.toList [word name.toList] := by
  intro rest hrest
  obtain ⟨hline, hblank⟩ := not_blank_of_isLetter hc
  unfold Scans
  rw [hchars, List.cons_append, lex, if_neg hline, if_neg hblank, if_pos hc,
    takeWhile_append_of_parts hcs hrest, dropWhile_append_of_parts hcs hrest]
  rfl

/-- An identifier is a single token. -/
theorem spells_ident {name : String} (hname : A.isIdentifier name = true) :
    Spells A name.toList [.ident name] := by
  obtain ⟨c, cs, hchars, hc, hcs, hkeyword⟩ := Alphabet.isIdentifier_iff.mp hname
  have hword : word name.toList = .ident name := by
    unfold word
    rw [String.ofList_toList]
    exact if_neg hkeyword
  rw [← hword]
  exact spells_word hchars hc hcs

/-- A keyword is a single token, and no identifier. -/
theorem spells_keyword {name : String} (hname : name ∈ keywords) :
    Spells A name.toList [.keyword name] := by
  have htable : ∀ name ∈ keywords, name.toList ≠ [] ∧
      name.toList.all (fun c => c.toNat < 128 && c.isAlpha) = true := by decide +kernel
  have hword : word name.toList = .keyword name := by
    unfold word
    rw [String.ofList_toList]
    exact if_pos hname
  obtain ⟨hne, hall⟩ := htable name hname
  have hletter : ∀ c ∈ name.toList, A.isLetter c = true := by
    intro c hc
    obtain ⟨hascii, halpha⟩ := Bool.and_eq_true_iff.mp (List.all_eq_true.mp hall c hc)
    simp [Alphabet.isLetter, of_decide_eq_true hascii, halpha]
  obtain ⟨c, cs, hchars⟩ := List.exists_cons_of_ne_nil hne
  rw [hchars] at hletter
  rw [← hword]
  refine spells_word hchars (hletter c List.mem_cons_self) (List.all_eq_true.mpr fun d hd => ?_)
  exact Bool.or_eq_true_iff.mpr (.inl (hletter d (List.mem_cons_of_mem c hd)))

/-- The characters of symbols. -/
def isMark (c : Char) : Bool :=
  c.toNat < 128 && !c.isAlphanum && c != '_' && !c.isWhitespace

/-- Symbols consist of marks. -/
theorem isMark_of_mem {s : String} {c : Char} (hs : s ∈ symbols) (hc : c ∈ s.toList) :
    isMark c = true := by
  have htable : ∀ s ∈ symbols, s.toList.all isMark = true := by decide +kernel
  exact List.all_eq_true.mp (htable s hs) c hc

/-- Marks are no parts of words. -/
theorem isPart_of_isMark {c : Char} (h : isMark c = true) : A.isPart c = false := by
  simp only [isMark, Bool.and_eq_true, decide_eq_true_eq, Bool.not_eq_true', bne_iff_ne,
    Char.isAlphanum, Bool.or_eq_false_iff] at h
  obtain ⟨⟨⟨hascii, halpha, hdigit⟩, hunder⟩, -⟩ := h
  simp [Alphabet.isPart, Alphabet.isLetter, hascii, halpha, hdigit, hunder]

/-- Only a mark makes a symbol longer. -/
theorem isMark_of_grows {s : String} {c : Char} (h : grows s c = true) : isMark c = true := by
  obtain ⟨t, ht, hc⟩ := List.any_eq_true.mp h
  obtain ⟨more, hmore⟩ := List.isPrefixOf_iff_prefix.mp hc
  exact isMark_of_mem ht (by simp [← hmore])

/-- A word right after a symbol does not make the symbol longer. -/
theorem grows_of_isPart {s : String} {c : Char} (h : A.isPart c = true) : grows s c = false := by
  cases hgrows : grows s c with
  | false => rfl
  | true =>
    rw [isPart_of_isMark (isMark_of_grows hgrows)] at h
    cases h

/-- A blank after a symbol does not make the symbol longer. -/
theorem grows_blank (s : String) : grows s ' ' = false := by
  cases hgrows : grows s ' ' with
  | false => rfl
  | true => cases isMark_of_grows hgrows

theorem exists_mark {s : String} (hs : s ∈ symbols) :
    ∃ c cs, s.toList = c :: cs ∧ isMark c = true := by
  have htable : ∀ s ∈ symbols, s.toList ≠ [] := by decide +kernel
  cases hchars : s.toList with
  | nil => exact absurd hchars (htable s hs)
  | cons c cs => exact ⟨c, cs, rfl, isMark_of_mem hs (by simp [hchars])⟩

theorem parts_blank (rest : List Char) : A.Parts (" ".toList ++ rest) := by
  rintro c ⟨⟩
  rfl

/-- No word goes on with a symbol. -/
theorem parts_symbol {s : String} (hs : s ∈ symbols) (rest : List Char) :
    A.Parts (s.toList ++ rest) := by
  obtain ⟨c, cs, hchars, hmark⟩ := exists_mark hs
  rw [hchars]
  rintro d ⟨⟩
  exact isPart_of_isMark hmark

/-- A symbol that does not go on is a single token. -/
theorem Scans.symbol {s : String} {rest : List Char} (hs : s ∈ symbols)
    (hcomment : isComment s = false) (hrest : ∀ c ∈ rest.head?, grows s c = false) :
    Scans A (s.toList ++ rest) [.symbol s] rest := by
  have hmunch := munch_append hs hrest
  obtain ⟨c, cs, hchars, hmark⟩ := exists_mark hs
  rw [hchars, List.cons_append] at hmunch
  have hletter : A.isLetter c = false := (Bool.or_eq_false_iff.mp (isPart_of_isMark hmark)).1
  have hline : c ≠ '\n' := by
    rintro rfl
    cases hmark
  have hblank : ¬ (c = ' ' ∨ c = '\t' ∨ c = '\r') := by
    rintro (rfl | rfl | rfl) <;> cases hmark
  obtain ⟨hnarrow, hwide⟩ : s ≠ "//" ∧ s ≠ "/*" := by simpa [isComment] using hcomment
  have hlength : s.length - 1 = cs.length := by
    rw [← String.length_toList, hchars, List.length_cons, Nat.add_sub_cancel]
  unfold Scans
  rw [hchars, List.cons_append, lex, if_neg hline, if_neg hblank, hletter, hmunch]
  simp only [hnarrow, hwide, if_false, Bool.false_eq_true]
  rw [hlength, List.drop_left]
  rfl

/-- The symbols of one character that no longer symbol begins with. -/
def brackets : List String := ["(", ")", "[", "]", ","]

/-- No longer symbol begins with a bracket. -/
theorem grows_bracket {s : String} (hs : s ∈ brackets) (c : Char) : grows s c = false := by
  have htable : ∀ s ∈ brackets, ∀ t ∈ symbols, s.toList.isPrefixOf t.toList = true →
      t.length = s.length := by decide +kernel
  cases hgrows : grows s c with
  | false => rfl
  | true =>
    obtain ⟨t, ht, hc⟩ := List.any_eq_true.mp hgrows
    obtain ⟨more, hmore⟩ := List.isPrefixOf_iff_prefix.mp hc
    have hlength : t.length = s.length :=
      htable s hs t ht (List.isPrefixOf_iff_prefix.mpr ⟨c :: more, by simpa using hmore⟩)
    have hlonger := congrArg List.length hmore
    simp only [List.length_append, List.length_cons, String.length_toList] at hlonger
    omega

theorem mem_symbols_of_bracket {s : String} (hs : s ∈ brackets) :
    s ∈ symbols ∧ isComment s = false := by
  have htable : ∀ s ∈ brackets, s ∈ symbols ∧ isComment s = false := by decide +kernel
  exact htable s hs

/-- A bracket is a single token, whatever follows it. -/
theorem Scans.bracket {s : String} (hs : s ∈ brackets) (rest : List Char) :
    Scans A (s.toList ++ rest) [.symbol s] rest := by
  obtain ⟨hmem, hcomment⟩ := mem_symbols_of_bracket hs
  exact .symbol hmem hcomment fun c _ => grows_bracket hs c

/-- A text between brackets. -/
theorem Spells.enclosed {left right : String} {text : List Char} {tokens : List Token}
    (h : Spells A text tokens) (hleft : left ∈ brackets) (hright : right ∈ brackets)
    (rest : List Char) :
    Scans A (left.toList ++ (text ++ (right.toList ++ rest)))
      (.symbol left :: (tokens ++ [.symbol right])) rest := by
  have hinner := h (right.toList ++ rest) (parts_symbol (mem_symbols_of_bracket hright).1 rest)
  exact (Scans.bracket hleft _).trans (hinner.trans (Scans.bracket hright rest))

end Desugar.Lexical
