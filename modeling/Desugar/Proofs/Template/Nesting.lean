import Mathlib.Data.List.Basic
import Desugar.Template.Syntax

/-!
# Balanced source text

The source of an embedded expression is made of ordinary characters, matched brackets around more
such text, and complete literals. Whatever stands in brackets and literals, a scan that follows the
nesting comes out of it as it went in, and meets only the outermost characters at the top.

- `Nesting.after` is what surrounds the place after a text, and `Nesting.tops` are the characters of
  the text that are met outside all brackets and literals. They decide where a text is cut, see
  `Nesting.closing?_append` and `Nesting.lastColon?_append`.
- `Source` are the balanced texts, as trees.
- `Source.after_text` and `Source.tops_text`: a scan of balanced text.
-/

namespace Desugar

/-! ## Scans -/

namespace Nesting

/-- What surrounds the place after a text. -/
def after (n : Nesting) (cs : List Char) : Nesting := cs.foldl next n

/-- The characters of a text that are met outside all brackets and literals. -/
def tops (n : Nesting) : List Char → List Char
  | [] => []
  | c :: cs => if n.isTop then c :: (n.next c).tops cs else (n.next c).tops cs

@[simp] theorem after_nil (n : Nesting) : n.after [] = n := rfl

@[simp] theorem after_cons (n : Nesting) (c : Char) (cs : List Char) :
    n.after (c :: cs) = (n.next c).after cs := rfl

@[simp] theorem after_append (n : Nesting) (cs ds : List Char) :
    n.after (cs ++ ds) = (n.after cs).after ds := List.foldl_append

/-- What is met outside brackets in a text depends on where the text before it leads. -/
theorem tops_append (n : Nesting) (cs ds : List Char) :
    n.tops (cs ++ ds) = n.tops cs ++ (n.after cs).tops ds := by
  induction cs generalizing n with
  | nil => rfl
  | cons c cs ih =>
    simp only [List.cons_append, tops, ih, after_cons]
    split <;> rfl

theorem mem_tops_cons {n : Nesting} {x c : Char} {cs : List Char} :
    x ∈ n.tops (c :: cs) ↔ x = c ∧ n.isTop = true ∨ x ∈ (n.next c).tops cs := by
  rw [tops]
  split
  · next htop => simp [htop]
  · next htop => simp [htop]

/-- Characters outside brackets are characters of the text. -/
theorem tops_subset (n : Nesting) (cs : List Char) : n.tops cs ⊆ cs := by
  induction cs generalizing n with
  | nil => exact List.Subset.refl _
  | cons c cs ih =>
    intro x hx
    rcases mem_tops_cons.mp hx with ⟨rfl, -⟩ | hx
    · exact List.mem_cons_self
    · exact List.mem_cons_of_mem c (ih _ hx)

/-- The closing parenthesis is looked for after a text that has none at the top. -/
theorem closing?_append {n : Nesting} {cs : List Char} (h : ')' ∉ n.tops cs) (rest : List Char) :
    n.closing? (cs ++ rest) = ((n.after cs).closing? rest).map fun cut => (cs ++ cut.1, cut.2) := by
  induction cs generalizing n with
  | nil => simp
  | cons c cs ih =>
    obtain ⟨hc, hcs⟩ := not_or.mp (mt mem_tops_cons.mpr h)
    have hopen : ¬(c = ')' ∧ n.isTop = true) := fun hclose => hc ⟨hclose.1.symm, hclose.2⟩
    rw [List.cons_append, closing?, if_neg hopen, ih hcs, after_cons]
    cases ((n.next c).after cs).closing? rest <;> rfl

/-- The last colon of a text is that of its end, if that has one. -/
theorem lastColon?_append {n : Nesting} {cs rest before behind : List Char}
    (h : (n.after cs).lastColon? rest = some (before, behind)) :
    n.lastColon? (cs ++ rest) = some (cs ++ before, behind) := by
  induction cs generalizing n with
  | nil => exact h
  | cons c cs ih => simp [lastColon?, ih h]

/-- Without a colon outside brackets there is no last one. -/
theorem lastColon?_eq_none {n : Nesting} {cs : List Char} (h : ':' ∉ n.tops cs) :
    n.lastColon? cs = none := by
  induction cs generalizing n with
  | nil => rfl
  | cons c cs ih =>
    obtain ⟨hc, hcs⟩ := not_or.mp (mt mem_tops_cons.mpr h)
    have hcolon : ¬(c = ':' ∧ n.isTop = true) := fun hcolon => hc ⟨hcolon.1.symm, hcolon.2⟩
    rw [lastColon?, ih hcs]
    exact if_neg hcolon

/-- Outside literals, inside `depth` brackets. -/
def outside (depth : Nat) : Nesting := { depth }

/-- Inside a literal, which stands inside `depth` brackets. -/
def within (depth : Nat) (quote : Char) : Nesting := { depth, quote := some quote }

/-- The character neither opens nor closes anything. -/
def isPlain (c : Char) : Bool := !isQuote c && !isOpening c && !isClosing c

theorem isTop_outside (depth : Nat) : (outside depth).isTop = (depth == 0) := rfl

theorem isTop_within (depth : Nat) (quote : Char) : (within depth quote).isTop = false := rfl

/-- An ordinary character opens and closes nothing. -/
theorem next_of_isPlain {c : Char} (h : isPlain c = true) (depth : Nat) :
    (outside depth).next c = outside depth := by
  simp only [isPlain, Bool.and_eq_true, Bool.not_eq_true'] at h
  simp [outside, next, h]

theorem after_of_isPlain {cs : List Char} (h : ∀ c ∈ cs, isPlain c = true) (depth : Nat) :
    (outside depth).after cs = outside depth := by
  induction cs with
  | nil => rfl
  | cons c cs ih =>
    obtain ⟨hc, hcs⟩ := List.forall_mem_cons.mp h
    rw [after_cons, next_of_isPlain hc, ih hcs]

end Nesting

/-! ## Sources -/

/-- The shapes of brackets. -/
inductive Bracket where
  | round
  | square
  | curly

namespace Bracket

/-- The bracket that opens a group. -/
def left : Bracket → Char
  | round => '('
  | square => '['
  | curly => '\x7b'

/-- The bracket that closes a group. -/
def right : Bracket → Char
  | round => ')'
  | square => ']'
  | curly => '\x7d'

/-- A left bracket opens a group. -/
theorem next_left (bracket : Bracket) (depth : Nat) :
    (Nesting.outside depth).next bracket.left = .outside (depth + 1) := by
  cases bracket <;> rfl

/-- A right bracket closes a group. -/
theorem next_right (bracket : Bracket) (depth : Nat) :
    (Nesting.outside (depth + 1)).next bracket.right = .outside depth := by
  cases bracket <;> rfl

end Bracket

/-- The kinds of literals. -/
inductive Quote where
  | double
  | single
  /-- A backslash has no meaning in the literal. -/
  | raw
deriving DecidableEq

namespace Quote

/-- The character at both ends of a literal. -/
def char : Quote → Char
  | double => '"'
  | single => '\''
  | raw => Nesting.rawQuote

/-- What a literal is made of. -/
inductive Item (quote : Quote) where
  | char (c : Char) (ne_quote : c ≠ quote.char) (ne_backslash : quote ≠ .raw → c ≠ '\\')
  /-- A character with a backslash before it. -/
  | escape (c : Char) (ne_raw : quote ≠ .raw)

/-- A part of a literal as it is written. -/
def Item.text {quote : Quote} : Item quote → List Char
  | char c _ _ => [c]
  | escape c _ => ['\\', c]

theorem char_eq_rawQuote_iff (quote : Quote) : quote.char = Nesting.rawQuote ↔ quote = .raw := by
  cases quote <;> decide

/-- A quote opens a literal. -/
theorem next_char (quote : Quote) (depth : Nat) :
    (Nesting.outside depth).next quote.char = .within depth quote.char := by
  cases quote <;> rfl

/-- The same character ends the literal. -/
theorem next_within (quote : Quote) (depth : Nat) :
    (Nesting.within depth quote.char).next quote.char = .outside depth := by
  cases quote <;> rfl

/-- A part of a literal does not end it, escapes included. -/
theorem after_item {quote : Quote} (item : quote.Item) (depth : Nat) :
    (Nesting.within depth quote.char).after item.text = .within depth quote.char := by
  cases item with
  | char c hquote hbackslash =>
    have hplain : ¬(c = '\\' ∧ quote.char ≠ Nesting.rawQuote) := by
      rintro ⟨hc, hraw⟩
      exact hbackslash (fun h => hraw (quote.char_eq_rawQuote_iff.mpr h)) hc
    simp only [Item.text, Nesting.after_cons, Nesting.after_nil, Nesting.within, Nesting.next,
      if_neg hplain, if_neg hquote, Bool.false_eq_true, if_false]
  | escape c hraw =>
    cases quote with
    | raw => exact absurd rfl hraw
    | _ => rfl

/-- The parts of a literal do not end it. -/
theorem after_items {quote : Quote} (items : List quote.Item) (depth : Nat) :
    (Nesting.within depth quote.char).after (items.flatMap Item.text) =
      .within depth quote.char := by
  induction items with
  | nil => rfl
  | cons item items ih => rw [List.flatMap_cons, Nesting.after_append, after_item, ih]

/-- Nothing in a literal is met outside of it. -/
theorem tops_item {quote : Quote} (item : quote.Item) (depth : Nat) :
    (Nesting.within depth quote.char).tops item.text = [] := by
  cases item with
  | char c _ _ => rfl
  | escape c hraw =>
    cases quote with
    | raw => exact absurd rfl hraw
    | _ => rfl

/-- No character of a literal is met at the top. -/
theorem tops_items {quote : Quote} (items : List quote.Item) (depth : Nat) :
    (Nesting.within depth quote.char).tops (items.flatMap Item.text) = [] := by
  induction items with
  | nil => rfl
  | cons item items ih =>
    rw [List.flatMap_cons, Nesting.tops_append, tops_item, after_item, ih, List.append_nil]

end Quote

/-- A balanced text: ordinary characters, groups in matched brackets, and literals. -/
inductive Source where
  | nil
  | char (c : Char) (plain : Nesting.isPlain c = true) (rest : Source)
  | group (bracket : Bracket) (body rest : Source)
  | literal (quote : Quote) (items : List quote.Item) (rest : Source)

namespace Source

/-- A balanced text as it is written. -/
def text : Source → List Char
  | nil => []
  | char c _ rest => c :: rest.text
  | group bracket body rest => bracket.left :: (body.text ++ bracket.right :: rest.text)
  | literal quote items rest =>
    quote.char :: (items.flatMap Quote.Item.text ++ quote.char :: rest.text)

/-- The characters outside groups and literals, with the one that opens each of those. -/
def surface : Source → List Char
  | nil => []
  | char c _ rest => c :: rest.surface
  | group bracket _ rest => bracket.left :: rest.surface
  | literal quote _ rest => quote.char :: rest.surface

/-- A text of ordinary characters is balanced, and it is its own surface. -/
theorem exists_of_isPlain {text : List Char} (h : ∀ c ∈ text, Nesting.isPlain c = true) :
    ∃ source : Source, source.text = text ∧ source.surface = text := by
  induction text with
  | nil => exact ⟨nil, rfl, rfl⟩
  | cons c cs ih =>
    obtain ⟨hc, hcs⟩ := List.forall_mem_cons.mp h
    obtain ⟨source, htext, hsurface⟩ := ih hcs
    exact ⟨char c hc source, by rw [text, htext], by rw [surface, hsurface]⟩

/-- A scan comes out of a balanced text as it went in. -/
theorem after_text (source : Source) (depth : Nat) :
    (Nesting.outside depth).after source.text = .outside depth := by
  induction source generalizing depth with
  | nil => rfl
  | char c plain rest ih => rw [text, Nesting.after_cons, Nesting.next_of_isPlain plain, ih]
  | group bracket body rest ihbody ih =>
    rw [text, Nesting.after_cons, bracket.next_left, Nesting.after_append, ihbody,
      Nesting.after_cons, bracket.next_right, ih]
  | literal quote items rest ih =>
    rw [text, Nesting.after_cons, quote.next_char, Nesting.after_append, Quote.after_items,
      Nesting.after_cons, quote.next_within, ih]

/-- Only the surface of a balanced text is met at the top, and inside brackets nothing is. -/
theorem tops_text (source : Source) (depth : Nat) :
    (Nesting.outside depth).tops source.text = if depth = 0 then source.surface else [] := by
  induction source generalizing depth with
  | nil => simp [text, surface, Nesting.tops]
  | char c plain rest ih =>
    rw [text, Nesting.tops, Nesting.next_of_isPlain plain, ih, Nesting.isTop_outside]
    cases depth <;> simp [surface]
  | group bracket body rest ihbody ih =>
    rw [text, Nesting.tops, bracket.next_left, Nesting.tops_append, ihbody, after_text,
      Nesting.tops, bracket.next_right, ih, Nesting.isTop_outside, Nesting.isTop_outside]
    cases depth <;> simp [surface]
  | literal quote items rest ih =>
    rw [text, Nesting.tops, quote.next_char, Nesting.tops_append, Quote.tops_items,
      Quote.after_items, Nesting.tops, quote.next_within, ih, Nesting.isTop_outside,
      Nesting.isTop_within]
    cases depth <;> simp [surface]

/-- In a balanced text every closing parenthesis belongs to a group. -/
theorem closing_not_mem_surface (source : Source) : ')' ∉ source.surface := by
  induction source with
  | nil => simp [surface]
  | char c plain rest ih =>
    have hc : ')' ≠ c := by
      rintro rfl
      cases plain
    simp [surface, hc, ih]
  | group bracket body rest _ ih => cases bracket <;> simp [surface, Bracket.left, ih]
  | literal quote items rest ih => cases quote <;> simp [surface, Quote.char, Nesting.rawQuote, ih]

end Source

end Desugar
