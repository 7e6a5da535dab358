import Desugar.Emit
import Desugar.Proofs.Emit.Token
import Desugar.Proofs.Template.Nesting
import Desugar.Proofs.Tree.Lowered
import Desugar.Proofs.Ty.Lowering

/-!
# Written code is balanced

Every text that is written for code closes the brackets it opens and ends the literals it begins,
if the names in the code are names. So a scan that follows the nesting comes out of the text of an
expression or a statement as it went in.

- `Balanced` are the texts of sources, `Flat` those of them with no brace outside brackets. Both are
  closed under what writing code does to texts.
- `Node.isLegible`: the names that a node holds itself are names.
- `Emit.balanced_expr` and the theorems beside it: one for each function that writes code.
-/

namespace Desugar

open Lexical (Alphabet)

/-! ## Balanced texts -/

namespace Nesting

/-- The brackets and quotes. -/
def marks : List Char := ['"', '\'', rawQuote, '(', '[', '\x7b', ')', ']', '\x7d']

/-- All characters but the brackets and quotes are ordinary ones. -/
theorem isPlain_of_not_mem {c : Char} (h : c ∉ marks) : isPlain c = true := by
  simp only [marks, List.mem_cons, List.not_mem_nil, or_false, not_or] at h
  simp [isPlain, isQuote, isOpening, isClosing, h]

end Nesting

namespace Source

/-- One source after the other. -/
def append : Source → Source → Source
  | nil, other => other
  | char c plain rest, other => char c plain (rest.append other)
  | group bracket body rest, other => group bracket body (rest.append other)
  | literal quote items rest, other => literal quote items (rest.append other)

/-- The text of a source after another one is the text after the other text. -/
theorem text_append (source other : Source) :
    (source.append other).text = source.text ++ other.text := by
  induction source with
  | nil => rfl
  | char c plain rest ih => simp [append, text, ih]
  | group bracket body rest _ ih => simp [append, text, ih]
  | literal quote items rest ih => simp [append, text, ih]

/-- The surface of a source after another one is the surface after the other surface. -/
theorem surface_append (source other : Source) :
    (source.append other).surface = source.surface ++ other.surface := by
  induction source with
  | nil => rfl
  | char c plain rest ih => simp [append, surface, ih]
  | group bracket body rest _ ih => simp [append, surface, ih]
  | literal quote items rest ih => simp [append, surface, ih]

end Source

/-- What holds of the empty text and of texts one after the other holds of a list of texts. -/
theorem intercalate_of_append {good : String → Prop} (hempty : good "")
    (happend : ∀ {text other : String}, good text → good other → good (text ++ other))
    {separator : String} (hseparator : good separator) :
    ∀ {texts : List String}, (∀ text ∈ texts, good text) → good (separator.intercalate texts)
  | [], _ => hempty
  | [text], h => by simpa using h text
  | text :: next :: rest, h => by
    obtain ⟨htext, hrest⟩ := List.forall_mem_cons.mp h
    rw [String.intercalate_cons_cons]
    exact happend (happend htext hseparator)
      (intercalate_of_append hempty happend hseparator hrest)

/-- The text is that of a source: its brackets match and its literals are complete. -/
def Balanced (text : String) : Prop := ∃ source : Source, source.text = text.toList

/-- The text is balanced, and no brace stands outside its brackets and literals. -/
def Flat (text : String) : Prop :=
  ∃ source : Source, source.text = text.toList ∧ '\x7b' ∉ source.surface

namespace Flat

variable {text other : String}

/-- A flat text is balanced. -/
theorem balanced (h : Flat text) : Balanced text :=
  let ⟨source, htext, _⟩ := h
  ⟨source, htext⟩

/-- A text of ordinary characters is flat. -/
theorem of_isPlain (h : ∀ c ∈ text.toList, Nesting.isPlain c = true) : Flat text := by
  obtain ⟨source, htext, hsurface⟩ := Source.exists_of_isPlain h
  refine ⟨source, htext, fun hbrace => ?_⟩
  rw [hsurface] at hbrace
  cases h _ hbrace

/-- A fixed text without brackets and quotes. -/
theorem fixed (h : text.toList.all Nesting.isPlain = true) : Flat text :=
  of_isPlain (List.all_eq_true.mp h)

theorem blank : Flat " " := fixed (by decide)

theorem comma : Flat ", " := fixed (by decide)

/-- Flat texts one after the other are flat. -/
theorem append (h : Flat text) (hother : Flat other) : Flat (text ++ other) := by
  obtain ⟨source, hsource, hsurface⟩ := h
  obtain ⟨rest, hrest, hrestsurface⟩ := hother
  refine ⟨source.append rest, ?_, ?_⟩
  · rw [Source.text_append, hsource, hrest, String.toList_append]
  · rw [Source.surface_append, List.mem_append, not_or]
    exact ⟨hsurface, hrestsurface⟩

/-- A literal is flat, whatever brackets stand in it. -/
theorem literal {quote : Quote} (items : List quote.Item) :
    Flat (.ofList (quote.char :: (items.flatMap Quote.Item.text ++ [quote.char]))) := by
  refine ⟨.literal quote items .nil, by simp [Source.text], ?_⟩
  cases quote <;> simp [Source.surface, Quote.char, Nesting.rawQuote]

end Flat

namespace Balanced

variable {text other : String}

theorem of_isPlain (h : ∀ c ∈ text.toList, Nesting.isPlain c = true) : Balanced text :=
  (Flat.of_isPlain h).balanced

theorem fixed (h : text.toList.all Nesting.isPlain = true) : Balanced text :=
  (Flat.fixed h).balanced

/-- Balanced texts one after the other are balanced. -/
theorem append (h : Balanced text) (hother : Balanced other) : Balanced (text ++ other) := by
  obtain ⟨source, hsource⟩ := h
  obtain ⟨rest, hrest⟩ := hother
  exact ⟨source.append rest, by rw [Source.text_append, hsource, hrest, String.toList_append]⟩

/-- A balanced text in parentheses is flat, since its braces are inside. -/
theorem flat_parens (h : Balanced text) : Flat (Emit.parens text) := by
  obtain ⟨source, hsource⟩ := h
  refine ⟨.group .round source .nil, ?_, by simp [Source.surface, Bracket.left]⟩
  simp [Source.text, hsource, Emit.parens, Bracket.left, Bracket.right]

/-- A balanced text in square brackets is flat. -/
theorem flat_square (h : Balanced text) : Flat ("[" ++ text ++ "]") := by
  obtain ⟨source, hsource⟩ := h
  refine ⟨.group .square source .nil, ?_, by simp [Source.surface, Bracket.left]⟩
  simp [Source.text, hsource, Bracket.left, Bracket.right]

/-- A balanced text in braces is balanced, but no longer flat. -/
theorem braces (h : Balanced text) : Balanced ("\x7b" ++ text ++ Emit.closing) := by
  obtain ⟨source, hsource⟩ := h
  exact ⟨.group .curly source .nil, by
    simp [Source.text, hsource, Emit.closing, Bracket.left, Bracket.right]⟩

theorem empty : Balanced "" := ⟨.nil, rfl⟩

theorem blank : Balanced " " := Flat.blank.balanced

theorem newline : Balanced "\n" := fixed (by decide)

theorem tabs (count : Nat) : Balanced (Emit.tabs count) := by
  refine of_isPlain fun c hc => ?_
  rw [Emit.tabs, String.toList_ofList] at hc
  rw [List.eq_of_mem_replicate hc]
  rfl

/-- The lines of a block between its braces. -/
theorem lines (h : Balanced text) (indent : Nat) :
    Balanced (Emit.opening ++ text ++ Emit.tabs indent ++ Emit.closing) := by
  have hopening : Emit.opening = "\x7b" ++ "\n" := rfl
  rw [hopening]
  simpa only [String.append_assoc] using ((newline.append h).append (tabs indent)).braces

/-- Balanced texts with a balanced separator between them are balanced. -/
theorem intercalate {separator : String} (hseparator : Balanced separator) {texts : List String}
    (h : ∀ text ∈ texts, Balanced text) : Balanced (separator.intercalate texts) :=
  intercalate_of_append empty append hseparator h

end Balanced

/-! ## Names -/

namespace Lexical.Alphabet

variable {A : Alphabet} {c : Char} {name : String}

/-- The character may stand in a name, a qualified one included. -/
def isNamePart (A : Alphabet) (c : Char) : Bool := A.isPart c || c == '.'

/-- The text is an identifier, or one after the name of its package. -/
def isName (A : Alphabet) (name : String) : Bool :=
  let front := String.ofList (name.toList.takeWhile (· != '.'))
  match name.toList.dropWhile (· != '.') with
  | [] => A.isIdentifier front
  | _ :: back => A.isIdentifier front && A.isIdentifier (String.ofList back)

/-- An identifier consists of letters and digits. -/
theorem isNamePart_of_isIdentifier (h : A.isIdentifier name = true) :
    ∀ c ∈ name.toList, A.isNamePart c = true := by
  obtain ⟨c, cs, hchars, hc, hcs, -⟩ := isIdentifier_iff.mp h
  rw [hchars]
  refine List.forall_mem_cons.mpr ⟨?_, fun d hd => ?_⟩
  · simp [isNamePart, isPart, hc]
  · simp [isNamePart, List.all_eq_true.mp hcs d hd]

/-- A qualified name has a dot besides. -/
theorem isNamePart_of_isName (h : A.isName name = true) :
    ∀ c ∈ name.toList, A.isNamePart c = true := by
  have hsplit := List.takeWhile_append_dropWhile (p := (· != '.')) (l := name.toList)
  unfold isName at h
  rw [← hsplit]
  cases hback : name.toList.dropWhile (· != '.') with
  | nil =>
    rw [hback] at h
    simpa using isNamePart_of_isIdentifier h
  | cons d back =>
    have hdot : d = '.' := by
      have := List.head?_dropWhile_not (· != '.') name.toList
      rw [hback] at this
      simpa using this
    rw [hback] at h
    obtain ⟨hfront, hback⟩ := Bool.and_eq_true_iff.mp h
    have hfront := isNamePart_of_isIdentifier hfront
    have hback := isNamePart_of_isIdentifier hback
    rw [String.toList_ofList] at hfront hback
    refine List.forall_mem_append.mpr ⟨hfront, List.forall_mem_cons.mpr ⟨?_, hback⟩⟩
    rw [hdot]
    simp [isNamePart]

/-- No bracket and no quote stands in a name. -/
theorem isPlain_of_isNamePart (h : A.isNamePart c = true) : Nesting.isPlain c = true := by
  refine Nesting.isPlain_of_not_mem fun hmark => ?_
  simp only [Nesting.marks, List.mem_cons, List.not_mem_nil, or_false] at hmark
  rcases hmark with rfl | rfl | rfl | rfl | rfl | rfl | rfl | rfl | rfl <;> cases h

end Lexical.Alphabet

/-- The type names that are written with braces. -/
def emptyTypes : List String := ["interface\x7b\x7d", "struct\x7b\x7d"]

/-- The names in a type are names, or those of the empty types. Tuples and extended types have no
text of their own. -/
def Ty.isLegible (A : Alphabet) : Ty → Bool
  | named name => A.isName name || emptyTypes.contains name
  | array inner | pointer inner _ | channel inner _ => inner.isLegible A
  | map key value => key.isLegible A && value.isLegible A
  | option _ | result _ | tuple _ => true

/-- The names that a node holds itself are names. -/
def Node.isLegible (A : Alphabet) : Node → Bool
  | .expr (.ident name _) => A.isName name
  | .expr (.selector _ field _) => A.isIdentifier field
  | .expr (.composite ty _ _) | .expr (.ofType ty _) => ty.isLegible A
  | .expr (.func params returns _ _) =>
    (params.all fun p => A.isIdentifier p.name && p.ty.isLegible A) &&
      returns.all fun t => t.slots.all (Ty.isLegible A)
  | .stmt (.var names ty _ _) =>
    (names.all fun id => A.isIdentifier id.name) && ty.all (Ty.isLegible A)
  | .stmt (.loop (.range key value _ _) _ _) =>
    (key.all fun id => A.isIdentifier id.name) && value.all fun id => A.isIdentifier id.name
  | _ => true

section Code

variable {A : Alphabet} {text : String}

/-- What may stand in a name is neither a bracket nor a quote. -/
theorem Flat.of_isNamePart (h : ∀ c ∈ text.toList, A.isNamePart c = true) : Flat text :=
  .of_isPlain fun c hc => Alphabet.isPlain_of_isNamePart (h c hc)

theorem Flat.of_isName (h : A.isName text = true) : Flat text :=
  .of_isNamePart (Alphabet.isNamePart_of_isName h)

theorem Flat.of_isIdentifier (h : A.isIdentifier text = true) : Flat text :=
  .of_isNamePart (Alphabet.isNamePart_of_isIdentifier h)

/-- A list of identifiers is flat. -/
theorem flat_names {names : List Ident}
    (h : (names.all fun id => A.isIdentifier id.name) = true) :
    Flat (", ".intercalate (names.map (·.name))) := by
  refine intercalate_of_append (.fixed (by decide)) .append .comma ?_
  intro text htext
  obtain ⟨id, hid, rfl⟩ := List.mem_map.mp htext
  exact .of_isIdentifier (List.all_eq_true.mp h id hid)

/-! ## Constants -/

namespace Quote

/-- A character of a text is written as parts of a literal. -/
theorem exists_items_escape {quote : Quote} (hraw : quote ≠ .raw) (c : Char) :
    ∃ items : List quote.Item, items.flatMap Item.text = Quoted.escape quote.char c := by
  have hdigit : ∀ n < 16, ∃ item : quote.Item, item.text = [Digit.ofNat n] := by
    intro n hn
    have hplain : Digit.ofNat n ≠ quote.char ∧ Digit.ofNat n ≠ '\\' := by
      revert n
      cases quote <;> decide
    exact ⟨.char _ hplain.1 fun _ => hplain.2, rfl⟩
  have hescape : ∀ d, ∃ items : List quote.Item, items.flatMap Item.text = ['\\', d] :=
    fun d => ⟨[.escape d hraw], rfl⟩
  unfold Quoted.escape
  split
  · exact hescape _
  · exact hescape _
  · exact hescape _
  · exact hescape _
  · next hbackslash _ _ _ =>
    split
    · exact hescape _
    · next hquote =>
      split
      · -- A control character is an escape with two digits behind it.
        obtain ⟨high, hhigh⟩ := hdigit (c.toNat / 16 % 16) (Nat.mod_lt _ (by decide))
        obtain ⟨low, hlow⟩ := hdigit (c.toNat % 16) (Nat.mod_lt _ (by decide))
        have htext : (Item.escape 'x' hraw).text = ['\\', 'x'] := rfl
        exact ⟨[.escape 'x' hraw, high, low], by simp [htext, hhigh, hlow, Digit.hex]⟩
      · exact ⟨[.char c hquote fun _ => hbackslash], by simp [Item.text]⟩

/-- The quoted form of a text consists of characters and escapes, so that no quote in it ends the
literal. -/
theorem exists_items {quote : Quote} (hraw : quote ≠ .raw) (cs : List Char) :
    ∃ items : List quote.Item, items.flatMap Item.text = Quoted.body quote.char cs := by
  induction cs with
  | nil => exact ⟨[], rfl⟩
  | cons c cs ih =>
    obtain ⟨items, hitems⟩ := exists_items_escape hraw c
    obtain ⟨rest, hrest⟩ := ih
    exact ⟨items ++ rest, by simp [Quoted.body, hitems, hrest]⟩

end Quote

namespace Emit

/-- The character stands in the text of a number. -/
def isNumeral (c : Char) : Bool := c.isDigit || c == '-' || c == '.' || c == 'e'

/-- What stands in a number is neither a bracket nor a quote. -/
theorem isPlain_of_isNumeral {c : Char} (h : isNumeral c = true) : Nesting.isPlain c = true := by
  refine Nesting.isPlain_of_not_mem fun hmark => ?_
  simp only [Nesting.marks, List.mem_cons, List.not_mem_nil, or_false] at hmark
  rcases hmark with rfl | rfl | rfl | rfl | rfl | rfl | rfl | rfl | rfl <;> cases h

theorem isNumeral_toDigits (n : Nat) : ∀ c ∈ Nat.toDigits 10 n, isNumeral c = true := by
  intro c hc
  simp [isNumeral, Nat.isDigit_of_mem_toDigits (by decide) (by decide) hc]

/-- An integer is written with digits and a sign. -/
theorem isNumeral_int (value : Int) : ∀ c ∈ (toString value).toList, isNumeral c = true := by
  rw [Int.toString_eq_repr, Int.repr_eq_if]
  split
  · rw [Nat.toList_repr]
    exact isNumeral_toDigits _
  · rw [String.toList_append, Nat.toList_repr]
    exact List.forall_mem_append.mpr ⟨List.all_eq_true.mp rfl, isNumeral_toDigits _⟩

theorem isNumeral_zeros (count : Nat) : ∀ c ∈ zeros count, isNumeral c = true := by
  intro c hc
  rw [List.eq_of_mem_replicate hc]
  rfl

/-- A number in positional form is written with its digits, zeros and a point. -/
theorem isNumeral_positional {digits : List Char} (h : ∀ c ∈ digits, isNumeral c = true)
    (whole : Int) : ∀ c ∈ positional digits whole, isNumeral c = true := by
  have hback : ∀ c ∈ zeros (-whole).toNat ++ digits.drop whole.toNat, isNumeral c = true :=
    List.forall_mem_append.mpr
      ⟨isNumeral_zeros _, fun c hc => h c (List.mem_of_mem_drop hc)⟩
  unfold positional
  refine List.forall_mem_append.mpr ⟨?_, List.forall_mem_cons.mpr ⟨rfl, ?_⟩⟩
  · split
    · exact List.forall_mem_append.mpr
        ⟨fun c hc => h c (List.mem_of_mem_take hc), isNumeral_zeros _⟩
    · exact List.all_eq_true.mp rfl
  · split
    · exact List.all_eq_true.mp rfl
    · exact hback

/-- A number in scientific form is written with its digits, a point and an exponent. -/
theorem isNumeral_scientific {digits : List Char} (h : ∀ c ∈ digits, isNumeral c = true)
    (exponent : Int) : ∀ c ∈ scientific digits exponent, isNumeral c = true := by
  unfold scientific
  refine List.forall_mem_append.mpr ⟨?_, List.forall_mem_cons.mpr ⟨rfl, isNumeral_int _⟩⟩
  split
  · obtain ⟨hfirst, hrest⟩ := List.forall_mem_cons.mp h
    exact List.forall_mem_cons.mpr ⟨hfirst, List.forall_mem_cons.mpr ⟨rfl, hrest⟩⟩
  · exact h

theorem isNumeral_magnitude (bits : UInt64) : ∀ c ∈ magnitude bits, isNumeral c = true := by
  unfold magnitude
  split
  · exact List.all_eq_true.mp rfl
  · simp only
    split
    · exact isNumeral_positional (isNumeral_toDigits _) _
    · exact isNumeral_scientific (isNumeral_toDigits _) _

/-- A floating-point number is written with digits, a sign, a point and an exponent. -/
theorem isNumeral_float (value : Binary64) : ∀ c ∈ (float value).toList, isNumeral c = true := by
  rw [float, String.toList_ofList]
  refine List.forall_mem_append.mpr ⟨?_, isNumeral_magnitude _⟩
  split <;> exact List.all_eq_true.mp rfl

/-- A constant is a number, a word or a literal. -/
theorem flat_literal {value : Literal} {span : Span} (h : literal value span = .ok text) :
    Flat text := by
  cases value with
  | int value =>
    cases h
    exact .of_isPlain fun c hc => isPlain_of_isNumeral (isNumeral_int value c hc)
  | float value =>
    rw [literal] at h
    split at h
    · cases h
      exact .of_isPlain fun c hc => isPlain_of_isNumeral (isNumeral_float value c hc)
    · cases h
  | string value =>
    cases h
    have hdouble : Quote.double ≠ .raw := by decide
    obtain ⟨items, hitems⟩ := Quote.exists_items hdouble value.toList
    have hflat := Flat.literal items
    rw [hitems] at hflat
    exact hflat
  | rune value =>
    cases h
    have hsingle : Quote.single ≠ .raw := by decide
    obtain ⟨items, hitems⟩ := Quote.exists_items_escape hsingle value
    have hflat := Flat.literal items
    rw [hitems] at hflat
    exact hflat
  | bool value =>
    cases value <;> cases h <;> exact .fixed (by decide)
  | nil =>
    cases h
    exact .fixed (by decide)

/-! ## Types and signatures -/

/-- The name of a type is balanced, also if it is one of the empty types with their braces. -/
theorem balanced_named {name : String} (h : (Ty.named name).isLegible A = true) :
    Balanced name := by
  rcases Bool.or_eq_true_iff.mp h with hname | hempty
  · exact (Flat.of_isName hname).balanced
  · have hinterface : Balanced "interface" := .fixed (by decide)
    have hstruct : Balanced "struct" := .fixed (by decide)
    simp only [emptyTypes, List.contains_iff_mem, List.mem_cons, List.not_mem_nil,
      or_false] at hempty
    rcases hempty with rfl | rfl
    · have hword : "interface\x7b\x7d" = "interface" ++ ("\x7b" ++ "" ++ closing) := rfl
      rw [hword]
      exact hinterface.append Balanced.empty.braces
    · have hword : "struct\x7b\x7d" = "struct" ++ ("\x7b" ++ "" ++ closing) := rfl
      rw [hword]
      exact hstruct.append Balanced.empty.braces

/-- The text of a legible type is balanced, by recursion on the type. -/
theorem balanced_tyText : ∀ {t : Ty} {text : String}, tyText t = .ok text →
    t.isLegible A = true → Balanced text
  | .named name, _, h, hnames => by
    cases h
    exact balanced_named hnames
  | .array element, _, h, hnames => by
    obtain ⟨inner, hinner, h⟩ := bind_eq_ok h
    cases h
    exact Balanced.empty.flat_square.balanced.append (balanced_tyText hinner hnames)
  | .map key value, _, h, hnames => by
    obtain ⟨k, hk, h⟩ := bind_eq_ok h
    obtain ⟨v, hv, h⟩ := bind_eq_ok h
    obtain ⟨hkey, hvalue⟩ := Bool.and_eq_true_iff.mp hnames
    cases h
    have hword : Balanced "map" := .fixed (by decide)
    have hlead : "map[" = "map" ++ "[" := rfl
    rw [hlead]
    simpa only [String.append_assoc] using
      (hword.append (balanced_tyText hk hkey).flat_square.balanced).append
        (balanced_tyText hv hvalue)
  | .pointer inner true, _, h, hnames => by
    obtain ⟨inner, hinner, h⟩ := bind_eq_ok h
    cases h
    exact (Balanced.fixed (by decide)).append (balanced_tyText hinner hnames)
  | .pointer _ false, _, h, _ => by cases h
  | .channel inner direction, _, h, hnames => by
    obtain ⟨inner, hinner, h⟩ := bind_eq_ok h
    have htext := balanced_tyText hinner hnames
    cases direction <;> cases h <;> exact (Balanced.fixed (by decide)).append htext
  | .option _, _, h, _ => by cases h
  | .result _, _, h, _ => by cases h
  | .tuple _, _, h, _ => by cases h

theorem tyText_of_ty {t : Ty} {span : Span} (h : ty t span = .ok text) : tyText t = .ok text := by
  unfold ty at h
  cases htext : tyText t with
  | error cause =>
    rw [htext] at h
    cases h
  | ok written =>
    rw [htext] at h
    cases h
    rfl

theorem balanced_ty {t : Ty} {span : Span} (h : ty t span = .ok text)
    (hnames : t.isLegible A = true) : Balanced text := balanced_tyText (tyText_of_ty h) hnames

theorem balanced_slotTexts {span : Span} : ∀ {slots : List Ty} {texts : List String},
    slotTexts span slots = .ok texts → slots.all (Ty.isLegible A) = true →
      ∀ text ∈ texts, Balanced text
  | [], _, h, _ => by
    cases h
    simp
  | t :: slots, _, h, hnames => by
    obtain ⟨text, htext, h⟩ := bind_eq_ok h
    obtain ⟨texts, htexts, h⟩ := bind_eq_ok h
    obtain ⟨ht, hslots⟩ := Bool.and_eq_true_iff.mp hnames
    cases h
    exact List.forall_mem_cons.mpr ⟨balanced_ty htext ht, balanced_slotTexts htexts hslots⟩

/-- The texts of legible parameters are balanced. -/
theorem balanced_params : ∀ {ps : List Param} {texts : List String}, params ps = .ok texts →
    (ps.all fun p => A.isIdentifier p.name && p.ty.isLegible A) = true →
      ∀ text ∈ texts, Balanced text
  | [], _, h, _ => by
    cases h
    simp
  | p :: ps, _, h, hnames => by
    obtain ⟨text, htext, h⟩ := bind_eq_ok h
    obtain ⟨texts, htexts, h⟩ := bind_eq_ok h
    obtain ⟨t, ht, hp⟩ := bind_eq_ok htext
    obtain ⟨hfirst, hrest⟩ := Bool.and_eq_true_iff.mp hnames
    obtain ⟨hname, hty⟩ := Bool.and_eq_true_iff.mp hfirst
    cases h
    cases hp
    refine List.forall_mem_cons.mpr ⟨?_, balanced_params htexts hrest⟩
    exact ((Flat.of_isIdentifier hname).balanced.append (.fixed (by decide))).append
      (balanced_ty ht hty)

/-- A return clause is empty, one type, or a list in parentheses. -/
theorem returnClause_cases {returns : Option Ty} {span : Span}
    (h : returnClause span returns = .ok text)
    (hnames : (returns.all fun t => t.slots.all (Ty.isLegible A)) = true) :
    text = "" ∨
      (∃ t inner, t.isLegible A = true ∧ ty t span = .ok inner ∧ text = " " ++ inner) ∨
      ∃ inner, Balanced inner ∧ text = " " ++ parens inner := by
  have hsingle : ∀ {t : Ty}, t.isLegible A = true →
      (ty t span >>= fun inner => .ok (" " ++ inner)) = .ok text →
      ∃ t inner, t.isLegible A = true ∧ ty t span = .ok inner ∧ text = " " ++ inner := by
    intro t hlegible h
    obtain ⟨inner, hinner, h⟩ := bind_eq_ok h
    exact ⟨t, inner, hlegible, hinner, (Except.ok.inj h).symm⟩
  cases returns with
  | none => exact .inl (Except.ok.inj h).symm
  | some t =>
    cases t with
    | tuple slots =>
      match slots with
      | [] => exact .inl (Except.ok.inj h).symm
      | [t] => exact .inr (.inl (hsingle (by simpa [Ty.slots] using hnames) h))
      | t :: u :: rest =>
        obtain ⟨texts, htexts, h⟩ := bind_eq_ok h
        have hparen : " (" = " " ++ "(" := rfl
        refine .inr
          (.inr ⟨_, Flat.comma.balanced.intercalate (balanced_slotTexts htexts hnames), ?_⟩)
        rw [← Except.ok.inj h, parens, hparen]
        simp only [String.append_assoc]
    | _ => exact .inr (.inl (hsingle (by simpa [Ty.slots] using hnames) h))

/-- The text of a legible signature is balanced. -/
theorem balanced_signature {ps : List Param} {returns : Option Ty} {body : Block} {span : Span}
    (h : signature ps returns span = .ok text)
    (hnames : Node.isLegible A (.expr (.func ps returns body span)) = true) : Balanced text := by
  obtain ⟨texts, htexts, h⟩ := bind_eq_ok h
  obtain ⟨clause, hclause, h⟩ := bind_eq_ok h
  obtain ⟨hparams, hreturns⟩ := Bool.and_eq_true_iff.mp hnames
  cases h
  have htypes := Flat.comma.balanced.intercalate (balanced_params htexts hparams)
  refine htypes.flat_parens.balanced.append ?_
  rcases returnClause_cases hclause hreturns with
    rfl | ⟨t, inner, ht, hinner, rfl⟩ | ⟨inner, hinner, rfl⟩
  · exact .empty
  · exact Balanced.blank.append (balanced_ty hinner ht)
  · exact Balanced.blank.append hinner.flat_parens.balanced

/-! ## Code -/

theorem balanced_symbol (op : BinaryOp) : Balanced op.symbol := by
  cases op <;> exact .fixed (by decide)

theorem balanced_sign (op : UnaryOp) : Balanced op.symbol := by
  cases op <;> exact .fixed (by decide)

/-- An operator between balanced operands is balanced, in parentheses or not. -/
theorem balanced_binaryText {left right : String} (outer : Nat) (op : BinaryOp)
    (hleft : Balanced left) (hright : Balanced right) :
    Balanced (binaryText outer op left right) := by
  have htext : Balanced (left ++ " " ++ op.symbol ++ " " ++ right) :=
    (((hleft.append .blank).append (balanced_symbol op)).append .blank).append hright
  unfold binaryText
  split
  · exact htext.flat_parens.balanced
  · exact htext

/-- An operator before a balanced operand is balanced, in parentheses or not. -/
theorem balanced_unaryText {operand : String} (outer : Nat) (op : UnaryOp)
    (h : Balanced operand) : Balanced (unaryText outer op operand) := by
  have htext : Balanced (op.symbol ++ if joins op operand then parens operand else operand) := by
    refine (balanced_sign op).append ?_
    split
    · exact h.flat_parens.balanced
    · exact h
  by_cases hprimary : primaryPrecedence ≤ outer
  · simpa only [unaryText, if_pos hprimary] using htext.flat_parens.balanced
  · simpa only [unaryText, if_neg hprimary] using htext

theorem balanced_tyExprText (outer : Nat) (h : Balanced text) :
    Balanced (tyExprText outer text) := by
  unfold tyExprText
  split
  · exact h.flat_parens.balanced
  · exact h

theorem balanced_place (position : Position) (h : Balanced text) :
    Balanced (position.place text) := by
  cases position with
  | line indent => exact ((Balanced.tabs indent).append h).append (.fixed (by decide))
  | header indent => exact h

theorem balanced_assignSymbol (op : AssignOp) : Balanced (assignSymbol op) := by
  cases op with
  | update op => exact (balanced_symbol op).append (.fixed (by decide))
  | _ => exact .fixed (by decide)

theorem balanced_list {texts : List String} (h : ∀ text ∈ texts, Balanced text) :
    Balanced (", ".intercalate texts) := Flat.comma.balanced.intercalate h

/-- The type of a declaration is absent, or stands after a blank. -/
theorem stmt_var_eq_ok {position : Position} {names : List Ident} {t : Option Ty}
    {values : List Expr} {span : Span} (h : stmt position (.var names t values span) = .ok text) :
    ∃ typed texts,
      (typed = "" ∨
        ∃ written inner, t = some written ∧ ty written span = .ok inner ∧
          typed = " " ++ inner) ∧
      exprs position.indent values = .ok texts ∧
      text = position.place ("var " ++ ", ".intercalate (names.map (·.name)) ++ typed ++
        if texts.isEmpty then "" else " = " ++ ", ".intercalate texts) := by
  cases t with
  | none =>
    simp only [stmt] at h
    obtain ⟨typed, htyped, h⟩ := bind_eq_ok h
    obtain ⟨texts, htexts, h⟩ := bind_eq_ok h
    cases htyped
    exact ⟨"", texts, .inl rfl, htexts, (Except.ok.inj h).symm⟩
  | some t =>
    simp only [stmt] at h
    obtain ⟨inner, hinner, h⟩ := bind_eq_ok h
    obtain ⟨typed, htyped, h⟩ := bind_eq_ok h
    obtain ⟨texts, htexts, h⟩ := bind_eq_ok h
    cases htyped
    exact ⟨_, texts, .inr ⟨t, inner, rfl, hinner, rfl⟩, htexts, (Except.ok.inj h).symm⟩

/-- The values of a declaration are absent, or stand after an equals sign. -/
theorem balanced_initial {texts : List String} (h : ∀ text ∈ texts, Balanced text) :
    Balanced (if texts.isEmpty then "" else " = " ++ ", ".intercalate texts) := by
  have hequals : Balanced " = " := .fixed (by decide)
  split
  · exact .empty
  · exact hequals.append (balanced_list h)

/-- What is written on lines of its own is not written in a header. -/
theorem lineOnly_eq_ok {position : Position} {span : Span} {f : Nat → Except Fault String}
    (h : position.lineOnly span f = .ok text) : ∃ indent, f indent = .ok text := by
  cases position with
  | line indent => exact ⟨indent, h⟩
  | header indent => cases h

/-- What stands between the first word of a loop over a container and the word before it. -/
theorem rangeText_eq {key value : Option Ident}
    (hkey : (key.all fun id => A.isIdentifier id.name) = true)
    (hvalue : (value.all fun id => A.isIdentifier id.name) = true) (define : Bool)
    (source : String) :
    ∃ lead, Flat lead ∧
      rangeText key value define source = "for " ++ lead ++ "range " ++ source := by
  have hop : Flat (if define then " := " else " = ") := by
    cases define <;> exact .fixed (by decide)
  have hblank : Flat "_, " := .fixed (by decide)
  cases key with
  | none =>
    cases value with
    | none =>
      have hfor : "for range " = "for " ++ "" ++ "range " := rfl
      refine ⟨"", .fixed (by decide), ?_⟩
      rw [← hfor]
      rfl
    | some value =>
      refine ⟨_, (hblank.append (.of_isIdentifier hvalue)).append hop, ?_⟩
      have hfor : "for _, " = "for " ++ "_, " := rfl
      simp only [rangeText, hfor, String.append_assoc]
  | some key =>
    cases value with
    | none =>
      refine ⟨_, (Flat.of_isIdentifier hkey).append hop, ?_⟩
      simp only [rangeText, String.append_assoc]
    | some value =>
      have hnames := ((Flat.of_isIdentifier hkey).append .comma).append (.of_isIdentifier hvalue)
      refine ⟨_, hnames.append hop, ?_⟩
      simp only [rangeText, String.append_assoc]

mutual
/-- The text of legible code is balanced, by recursion on the tree. -/
theorem balanced_expr {outer indent : Nat} : ∀ {e : Expr} {text : String},
    expr outer indent e = .ok text → Within (Node.isLegible A) e.nodes → Balanced text
  | .ident name _, _, h, hnames => by
    cases h
    exact (Flat.of_isName (within_leaf.mp hnames)).balanced
  | .lit value span, _, h, _ => (flat_literal h).balanced
  | .binary op left right _, _, h, hnames => by
    obtain ⟨l, hl, h⟩ := bind_eq_ok h
    obtain ⟨r, hr, h⟩ := bind_eq_ok h
    obtain ⟨-, hleft, hright⟩ := within_pair.mp hnames
    cases h
    exact balanced_binaryText outer op (balanced_expr hl hleft) (balanced_expr hr hright)
  | .unary op operand _, _, h, hnames => by
    obtain ⟨inner, hinner, h⟩ := bind_eq_ok h
    obtain ⟨-, hoperand⟩ := within_cons.mp hnames
    cases h
    exact balanced_unaryText outer op (balanced_expr hinner hoperand)
  | .call callee args _, _, h, hnames => by
    obtain ⟨f, hf, h⟩ := bind_eq_ok h
    obtain ⟨texts, htexts, h⟩ := bind_eq_ok h
    obtain ⟨-, hcallee, hargs⟩ := within_pair.mp hnames
    cases h
    exact (balanced_expr hf hcallee).append
      (balanced_list (balanced_exprs htexts hargs)).flat_parens.balanced
  | .selector base field _, _, h, hnames => by
    obtain ⟨inner, hinner, h⟩ := bind_eq_ok h
    obtain ⟨hfield, hbase⟩ := within_cons.mp hnames
    cases h
    exact ((balanced_expr hinner hbase).append (.fixed (by decide))).append
      (Flat.of_isIdentifier hfield).balanced
  | .index base index _, _, h, hnames => by
    obtain ⟨b, hb, h⟩ := bind_eq_ok h
    obtain ⟨i, hi, h⟩ := bind_eq_ok h
    obtain ⟨-, hbase, hindex⟩ := within_pair.mp hnames
    cases h
    simpa only [String.append_assoc] using
      (balanced_expr hb hbase).append (balanced_expr hi hindex).flat_square.balanced
  | .composite t elements span, _, h, hnames => by
    obtain ⟨texts, htexts, h⟩ := bind_eq_ok h
    obtain ⟨written, hwritten, h⟩ := bind_eq_ok h
    obtain ⟨ht, helements⟩ := within_cons.mp hnames
    cases h
    have hinner := balanced_list (balanced_elementTexts htexts helements)
    simpa only [String.append_assoc] using (balanced_ty hwritten ht).append hinner.braces
  | .func ps returns body span, _, h, hnames => by
    obtain ⟨lines, hlines, h⟩ := bind_eq_ok h
    obtain ⟨head, hhead, h⟩ := bind_eq_ok h
    obtain ⟨hsignature, hbody⟩ := within_cons.mp hnames
    cases h
    have hfunc : Balanced "func" := .fixed (by decide)
    simpa only [String.append_assoc] using
      ((hfunc.append (balanced_signature hhead hsignature)).append .blank).append
        ((balanced_block hlines hbody).lines indent)
  | .ofType t span, _, h, hnames => by
    obtain ⟨written, hwritten, h⟩ := bind_eq_ok h
    cases h
    exact balanced_tyExprText outer (balanced_ty hwritten (within_leaf.mp hnames))
  | .template _ _, _, h, _ => by cases h
  | .attempt _ _, _, h, _ => by cases h

theorem balanced_exprs {indent : Nat} : ∀ {es : List Expr} {texts : List String},
    exprs indent es = .ok texts → Within (Node.isLegible A) (Expr.nodesList es) →
      ∀ text ∈ texts, Balanced text
  | [], _, h, _ => by
    cases h
    simp
  | e :: es, _, h, hnames => by
    obtain ⟨text, htext, h⟩ := bind_eq_ok h
    obtain ⟨texts, htexts, h⟩ := bind_eq_ok h
    obtain ⟨he, hes⟩ := within_append.mp hnames
    cases h
    exact List.forall_mem_cons.mpr ⟨balanced_expr htext he, balanced_exprs htexts hes⟩

theorem balanced_elementTexts {indent : Nat} : ∀ {elements : List Element} {texts : List String},
    elementTexts indent elements = .ok texts →
      Within (Node.isLegible A) (Element.nodesList elements) → ∀ text ∈ texts, Balanced text
  | [], _, h, _ => by
    cases h
    simp
  | ⟨key, value⟩ :: rest, _, h, hnames => by
    obtain ⟨v, hv, h⟩ := bind_eq_ok h
    obtain ⟨k, hk, h⟩ := bind_eq_ok h
    obtain ⟨texts, htexts, h⟩ := bind_eq_ok h
    obtain ⟨hfirst, hrest⟩ := within_append.mp hnames
    obtain ⟨hkey, hvalue⟩ := within_append.mp hfirst
    cases h
    exact List.forall_mem_cons.mpr
      ⟨(balanced_keyText hk hkey).append (balanced_expr hv hvalue),
        balanced_elementTexts htexts hrest⟩

theorem balanced_keyText {indent : Nat} : ∀ {key : Option Expr} {text : String},
    keyText indent key = .ok text → Within (Node.isLegible A) (Expr.nodesOption key) →
      Balanced text
  | none, _, h, _ => by
    cases h
    exact .empty
  | some key, _, h, hnames => by
    obtain ⟨text, htext, h⟩ := bind_eq_ok h
    cases h
    exact (balanced_expr htext hnames).append (.fixed (by decide))

theorem balanced_block {indent : Nat} : ∀ {b : Block} {text : String},
    block indent b = .ok text → Within (Node.isLegible A) b.nodes → Balanced text
  | ⟨_, _⟩, _, h, hnames => balanced_lines h hnames

theorem balanced_lines {indent : Nat} : ∀ {stmts : List Stmt} {text : String},
    lines indent stmts = .ok text → Within (Node.isLegible A) (Stmt.nodesList stmts) →
      Balanced text
  | [], _, h, _ => by
    cases h
    exact .empty
  | s :: rest, _, h, hnames => by
    obtain ⟨line, hline, h⟩ := bind_eq_ok h
    obtain ⟨lines, hlines, h⟩ := bind_eq_ok h
    obtain ⟨hs, hrest⟩ := within_append.mp hnames
    cases h
    exact (balanced_stmt hline hs).append (balanced_lines hlines hrest)

theorem balanced_stmt {position : Position} : ∀ {s : Stmt} {text : String},
    stmt position s = .ok text → Within (Node.isLegible A) s.nodes → Balanced text
  | .var names t values span, _, h, hnames => by
    obtain ⟨typed, texts, htyped, htexts, rfl⟩ := stmt_var_eq_ok h
    obtain ⟨hself, hvalues⟩ := within_cons.mp hnames
    obtain ⟨hids, ht⟩ := Bool.and_eq_true_iff.mp hself
    have hvar : Balanced "var " := .fixed (by decide)
    have htype : Balanced typed := by
      rcases htyped with rfl | ⟨written, inner, rfl, hinner, rfl⟩
      · exact .empty
      · exact Balanced.blank.append (balanced_ty hinner ht)
    exact balanced_place position (((hvar.append (flat_names hids).balanced).append htype).append
      (balanced_initial (balanced_exprs htexts hvalues)))
  | .assign targets op values _, _, h, hnames => by
    obtain ⟨left, hleft, h⟩ := bind_eq_ok h
    obtain ⟨right, hright, h⟩ := bind_eq_ok h
    obtain ⟨-, htargets, hvalues⟩ := within_pair.mp hnames
    cases h
    exact balanced_place position
      (((((balanced_list (balanced_exprs hleft htargets)).append .blank).append
        (balanced_assignSymbol op)).append .blank).append
          (balanced_list (balanced_exprs hright hvalues)))
  | .expr value, _, h, hnames => by
    obtain ⟨text, htext, h⟩ := bind_eq_ok h
    cases h
    exact balanced_place position (balanced_expr htext (within_cons.mp hnames).2)
  | .ret values _, _, h, hnames => by
    obtain ⟨texts, htexts, h⟩ := bind_eq_ok h
    cases h
    have hreturn : Balanced "return " := .fixed (by decide)
    refine balanced_place position ?_
    split
    · exact .fixed (by decide)
    · exact hreturn.append (balanced_list (balanced_exprs htexts (within_cons.mp hnames).2))
  | .go call _, _, h, hnames => by
    obtain ⟨text, htext, h⟩ := bind_eq_ok h
    cases h
    have hgo : Balanced "go " := .fixed (by decide)
    exact balanced_place position (hgo.append (balanced_expr htext (within_cons.mp hnames).2))
  | .defer call _, _, h, hnames => by
    obtain ⟨text, htext, h⟩ := bind_eq_ok h
    cases h
    have hdefer : Balanced "defer " := .fixed (by decide)
    exact balanced_place position (hdefer.append (balanced_expr htext (within_cons.mp hnames).2))
  | .breakLoop _, _, h, _ => by
    cases h
    exact balanced_place position (.fixed (by decide))
  | .continueLoop _, _, h, _ => by
    cases h
    exact balanced_place position (.fixed (by decide))
  | .cond ⟨condition, thenBlock, otherwise, span⟩, _, h, hnames => by
    obtain ⟨indent, h⟩ := lineOnly_eq_ok h
    obtain ⟨test, htest, h⟩ := bind_eq_ok h
    obtain ⟨body, hbody, h⟩ := bind_eq_ok h
    obtain ⟨rest, hrest, h⟩ := bind_eq_ok h
    obtain ⟨hbranch, hotherwise⟩ := within_append.mp (within_cons.mp hnames).2
    obtain ⟨hcondition, hblock⟩ := within_append.mp hbranch
    cases h
    have hif : Balanced "if " := .fixed (by decide)
    simpa only [String.append_assoc] using
      ((((((Balanced.tabs indent).append hif).append (balanced_expr htest hcondition)).append
        .blank).append ((balanced_block hbody hblock).lines indent)).append
          (balanced_elseText hrest hotherwise)).append .newline
  | .loop clause body span, _, h, hnames => by
    obtain ⟨indent, h⟩ := lineOnly_eq_ok h
    obtain ⟨header, hheader, h⟩ := bind_eq_ok h
    obtain ⟨lines, hlines, h⟩ := bind_eq_ok h
    obtain ⟨hself, hclause, hblock⟩ := within_pair.mp hnames
    cases h
    simpa only [String.append_assoc] using
      ((((Balanced.tabs indent).append (balanced_clauseText hheader hself hclause)).append
        .blank).append ((balanced_block hlines hblock).lines indent)).append .newline
  | .block ⟨stmts, span⟩, _, h, hnames => by
    obtain ⟨indent, h⟩ := lineOnly_eq_ok h
    obtain ⟨lines, hlines, h⟩ := bind_eq_ok h
    cases h
    simpa only [String.append_assoc] using
      ((Balanced.tabs indent).append
        ((balanced_lines hlines (within_cons.mp hnames).2).lines indent)).append .newline
  | .throw _ span, _, h, _ => by
    obtain ⟨_, h⟩ := lineOnly_eq_ok h
    cases h
  | .bind _ _ span, _, h, _ => by
    obtain ⟨_, h⟩ := lineOnly_eq_ok h
    cases h

theorem balanced_elseText {indent : Nat} : ∀ {otherwise : Else} {text : String},
    elseText indent otherwise = .ok text → Within (Node.isLegible A) otherwise.nodes →
      Balanced text
  | .none, _, h, _ => by
    cases h
    exact .empty
  | .block body, _, h, hnames => by
    obtain ⟨lines, hlines, h⟩ := bind_eq_ok h
    cases h
    have helse : Balanced " else " := .fixed (by decide)
    simpa only [String.append_assoc] using
      helse.append ((balanced_block hlines hnames).lines indent)
  | .elseIf ⟨condition, thenBlock, otherwise, _⟩, _, h, hnames => by
    obtain ⟨test, htest, h⟩ := bind_eq_ok h
    obtain ⟨body, hbody, h⟩ := bind_eq_ok h
    obtain ⟨rest, hrest, h⟩ := bind_eq_ok h
    obtain ⟨hbranch, hotherwise⟩ := within_append.mp hnames
    obtain ⟨hcondition, hblock⟩ := within_append.mp hbranch
    cases h
    have helse : Balanced " else if " := .fixed (by decide)
    simpa only [String.append_assoc] using
      (((helse.append (balanced_expr htest hcondition)).append .blank).append
        ((balanced_block hbody hblock).lines indent)).append (balanced_elseText hrest hotherwise)

theorem balanced_clauseText {indent : Nat} : ∀ {clause : Clause} {body : Block} {span : Span}
    {text : String}, clauseText indent clause = .ok text →
      Node.isLegible A (.stmt (.loop clause body span)) = true →
        Within (Node.isLegible A) clause.nodes → Balanced text
  | .infinite, _, _, _, h, _, _ => by
    cases h
    exact .fixed (by decide)
  | .condition test, _, _, _, h, _, hnames => by
    obtain ⟨text, htext, h⟩ := bind_eq_ok h
    cases h
    have hfor : Balanced "for " := .fixed (by decide)
    exact hfor.append (balanced_expr htext hnames)
  | .three first condition post, _, _, _, h, _, hnames => by
    obtain ⟨start, hstart, h⟩ := bind_eq_ok h
    obtain ⟨test, htest, h⟩ := bind_eq_ok h
    obtain ⟨step, hstep, h⟩ := bind_eq_ok h
    obtain ⟨hfront, hpost⟩ := within_append.mp hnames
    obtain ⟨hfirst, hcondition⟩ := within_append.mp hfront
    cases h
    have hfor : Balanced "for " := .fixed (by decide)
    have hsemicolon : Balanced ";" := .fixed (by decide)
    exact ((((hfor.append (balanced_headerText .empty hstart hfirst)).append hsemicolon).append
      (balanced_conditionText htest hcondition)).append hsemicolon).append
        (balanced_headerText .blank hstep hpost)
  | .range key value define source, _, _, _, h, hself, hnames => by
    obtain ⟨text, htext, h⟩ := bind_eq_ok h
    obtain ⟨hkey, hvalue⟩ := Bool.and_eq_true_iff.mp hself
    obtain ⟨lead, hlead, heq⟩ := rangeText_eq hkey hvalue define text
    cases h
    have hfor : Balanced "for " := .fixed (by decide)
    have hrange : Balanced "range " := .fixed (by decide)
    rw [heq]
    exact ((hfor.append hlead.balanced).append hrange).append (balanced_expr htext hnames)

theorem balanced_headerText {indent : Nat} {separator : String} (hseparator : Balanced separator) :
    ∀ {s : Option Stmt} {text : String}, headerText indent separator s = .ok text →
      Within (Node.isLegible A) (Stmt.nodesOption s) → Balanced text
  | none, _, h, _ => by
    cases h
    exact .empty
  | some s, _, h, hnames => by
    obtain ⟨text, htext, h⟩ := bind_eq_ok h
    cases h
    exact hseparator.append (balanced_stmt htext hnames)

theorem balanced_conditionText {indent : Nat} : ∀ {condition : Option Expr} {text : String},
    conditionText indent condition = .ok text →
      Within (Node.isLegible A) (Expr.nodesOption condition) → Balanced text
  | none, _, h, _ => by
    cases h
    exact .empty
  | some test, _, h, hnames => by
    obtain ⟨text, htext, h⟩ := bind_eq_ok h
    cases h
    exact Balanced.blank.append (balanced_expr htext hnames)
end

end Emit

end Code

end Desugar
