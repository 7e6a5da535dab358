import Mathlib.Data.List.TakeWhile
import Desugar.Proofs.Emit.Balanced

/-!
# Composite literals in headers

The header of a conditional or a loop ends at the brace that opens its block. A brace right after a
type name is taken for that one, unless it stands in brackets, so a composite literal with such a
type is not read as one in a header. Writing code puts parentheses only where operators need them.

- `Spot.exposes` reads a header and finds a composite literal with a type name outside brackets.
- `Expr.exposes` finds it in the tree: no parentheses are written between the literal and the
  whole expression.
- `TypeText` says what the text of a type does to a header, see `typeText_tyText`.
- `Emit.exposes_expr` says that the tree and the text of an expression agree.
-/

namespace Desugar

open Lexical (Alphabet)

/-! ## Reading a header -/

/-- The character stands in a unary operator. -/
def isSign (c : Char) : Bool := "-!^<&*".toList.contains c

/-- An operand starts here, after unary operators or none. The text before the place is given with
its last character first. A type that follows `chan` belongs to the type of the channel. -/
def startsOperand (before : List Char) : Bool :=
  match before.dropWhile isSign with
  | [] => true
  | ' ' :: rest =>
    !("chan".toList.reverse.isPrefixOf rest || "chan<-".toList.reverse.isPrefixOf rest)
  | _ => false

/-- The text before the place, its last character first, ends in an operand that is a name so
far. -/
def Lexical.Alphabet.endsInName (A : Alphabet) (before : List Char) : Bool :=
  A.isName (String.ofList (before.takeWhile A.isNamePart).reverse) &&
    startsOperand (before.dropWhile A.isNamePart)

/-- A place in a header. -/
structure Spot where
  /-- What surrounds the place. -/
  nesting : Nesting := {}
  /-- The text before the place, its last character first. -/
  before : List Char := []

namespace Spot

/-- The place after a character. -/
def next (p : Spot) (c : Char) : Spot := ⟨p.nesting.next c, c :: p.before⟩

/-- The place after a text. -/
def after (p : Spot) (cs : List Char) : Spot := cs.foldl next p

/-- From the place on, a brace outside brackets and literals stands right after an operand that is
a name: a composite literal with this name as its type. -/
def exposes (A : Alphabet) (p : Spot) : List Char → Bool
  | [] => false
  | c :: cs =>
    c == '\x7b' && p.nesting.isTop && A.endsInName p.before || (p.next c).exposes A cs

/-- The place is outside all brackets and literals. -/
def IsOuter (p : Spot) : Prop := p.nesting = .outside 0

variable {A : Alphabet} {p : Spot}

/-- What surrounds a place is told by the text before it. -/
theorem after_nesting (p : Spot) (cs : List Char) :
    (p.after cs).nesting = p.nesting.after cs := by
  induction cs generalizing p with
  | nil => rfl
  | cons c cs ih => exact ih (p.next c)

/-- The text before a place is what has been read. -/
theorem after_before (p : Spot) (cs : List Char) :
    (p.after cs).before = cs.reverse ++ p.before := by
  induction cs generalizing p with
  | nil => rfl
  | cons c cs ih =>
    have hrest : (p.after (c :: cs)).before = cs.reverse ++ (c :: p.before) := ih (p.next c)
    rw [hrest, List.reverse_cons, List.append_assoc]
    rfl

/-- A text exposes a literal in its first part, or in its second part as it is read after the first.
-/
theorem exposes_append (p : Spot) (cs ds : List Char) :
    p.exposes A (cs ++ ds) = (p.exposes A cs || (p.after cs).exposes A ds) := by
  induction cs generalizing p with
  | nil => rfl
  | cons c cs ih =>
    have hrest : (p.after (c :: cs)) = (p.next c).after cs := rfl
    rw [List.cons_append, exposes, exposes, ih, hrest, Bool.or_assoc]

/-- Where no brace is met at the top, nothing is exposed. -/
theorem exposes_eq_false {cs : List Char} (h : '\x7b' ∉ p.nesting.tops cs) :
    p.exposes A cs = false := by
  induction cs generalizing p with
  | nil => rfl
  | cons c cs ih =>
    obtain ⟨hc, hcs⟩ := not_or.mp (mt Nesting.mem_tops_cons.mpr h)
    have hbrace : (c == '\x7b' && p.nesting.isTop) = false := by
      by_contra hbrace
      rw [Bool.not_eq_false, Bool.and_eq_true, beq_iff_eq] at hbrace
      exact hc ⟨hbrace.1.symm, hbrace.2⟩
    have hrest : (p.next c).exposes A cs = false := ih hcs
    rw [exposes, hbrace, hrest]
    rfl

/-- A balanced text leads from outside all brackets to outside all brackets. -/
theorem IsOuter.after {text : String} (hp : p.IsOuter) (h : Balanced text) :
    (p.after text.toList).IsOuter := by
  obtain ⟨source, hsource⟩ := h
  rw [IsOuter, after_nesting, hp, ← hsource, source.after_text]

/-- A composite literal is exposed by the text before its brace alone. -/
theorem exposes_braces {text : String} (hp : p.IsOuter) (h : Balanced text) :
    p.exposes A ("\x7b" ++ text ++ Emit.closing).toList = A.endsInName p.before := by
  obtain ⟨source, hsource⟩ := h
  have hclosed : (p.next '\x7b').exposes A (source.text ++ ['\x7d']) = false := by
    refine exposes_eq_false ?_
    have hnext : (p.next '\x7b').nesting = .outside 1 := by
      rw [next, hp]
      rfl
    rw [hnext, Nesting.tops_append, source.tops_text, source.after_text]
    exact List.not_mem_nil
  have htext : ("\x7b" ++ text ++ Emit.closing).toList = '\x7b' :: (source.text ++ ['\x7d']) := by
    simp [hsource, Emit.closing]
  have htop : p.nesting.isTop = true := by
    rw [hp]
    rfl
  rw [htext, exposes, hclosed, htop]
  simp

end Spot

/-! ## Texts that expose a literal or not -/

/-- Read from any place outside brackets, the text exposes a literal or not. -/
structure Exposes (A : Alphabet) (text : String) (flag : Bool) : Prop where
  balanced : Balanced text
  exposes_eq : ∀ p : Spot, p.IsOuter → p.exposes A text.toList = flag

/-- Read as an operand outside brackets, the text exposes a literal or not. -/
structure OperandExposes (A : Alphabet) (text : String) (flag : Bool) : Prop where
  balanced : Balanced text
  exposes_eq : ∀ p : Spot, p.IsOuter → startsOperand p.before = true →
    p.exposes A text.toList = flag

/-- An operand starts after the text. -/
structure Separator (text : String) : Prop where
  flat : Flat text
  starts : ∀ before, startsOperand (text.toList.reverse ++ before) = true

section Texts

variable {A : Alphabet} {text other : String} {flag flag' : Bool}

/-- A flat text exposes nothing, since it has no brace outside brackets. -/
theorem Flat.exposes (h : Flat text) : Exposes A text false := by
  refine ⟨h.balanced, fun p hp => ?_⟩
  obtain ⟨source, hsource, hsurface⟩ := h
  refine Spot.exposes_eq_false ?_
  rw [hp, ← hsource, source.tops_text]
  exact hsurface

/-- What holds of a text anywhere outside brackets holds where an operand starts. -/
theorem Exposes.operand (h : Exposes A text flag) : OperandExposes A text flag :=
  ⟨h.balanced, fun p hp _ => h.exposes_eq p hp⟩

/-- Texts one after the other expose what one of them exposes. -/
theorem Exposes.append (h : Exposes A text flag) (hother : Exposes A other flag') :
    Exposes A (text ++ other) (flag || flag') := by
  refine ⟨h.balanced.append hother.balanced, fun p hp => ?_⟩
  rw [String.toList_append, Spot.exposes_append, h.exposes_eq p hp,
    hother.exposes_eq _ (hp.after h.balanced)]

/-- An operand that goes on exposes what one of the two texts exposes. -/
theorem OperandExposes.append (h : OperandExposes A text flag) (hother : Exposes A other flag') :
    OperandExposes A (text ++ other) (flag || flag') := by
  refine ⟨h.balanced.append hother.balanced, fun p hp hstart => ?_⟩
  rw [String.toList_append, Spot.exposes_append, h.exposes_eq p hp hstart,
    hother.exposes_eq _ (hp.after h.balanced)]

/-- What follows an operand without a brace outside brackets changes nothing. -/
theorem OperandExposes.append_flat (h : OperandExposes A text flag) (hother : Flat other) :
    OperandExposes A (text ++ other) flag := by
  simpa using h.append hother.exposes

/-- After a separator an operand starts, so the text is read as one. -/
theorem OperandExposes.after_separator {separator : String} (h : OperandExposes A text flag)
    (hseparator : Separator separator) : Exposes A (separator ++ text) flag := by
  refine ⟨hseparator.flat.balanced.append h.balanced, fun p hp => ?_⟩
  have hspot := hp.after hseparator.flat.balanced
  have hstart : startsOperand (p.after separator.toList).before = true := by
    rw [Spot.after_before]
    exact hseparator.starts p.before
  rw [String.toList_append, Spot.exposes_append, hseparator.flat.exposes.exposes_eq p hp,
    h.exposes_eq _ hspot hstart, Bool.false_or]

/-- Unary operators before an operand. -/
theorem OperandExposes.signed {signs : String} (h : OperandExposes A text flag)
    (hflat : Flat signs)
    (hsigns : ∀ before, startsOperand (signs.toList.reverse ++ before) = startsOperand before) :
    OperandExposes A (signs ++ text) flag := by
  refine ⟨hflat.balanced.append h.balanced, fun p hp hstart => ?_⟩
  have hspot := hp.after hflat.balanced
  have hnext : startsOperand (p.after signs.toList).before = true := by
    rw [Spot.after_before, hsigns, hstart]
  rw [String.toList_append, Spot.exposes_append, hflat.exposes.exposes_eq p hp,
    h.exposes_eq _ hspot hnext, Bool.false_or]

theorem separator_comma : Separator ", " := ⟨.comma, fun _ => rfl⟩

/-- The operands of a list. -/
theorem operandExposes_list : ∀ {texts : List String} {flags : List Bool},
    List.Forall₂ (OperandExposes A) texts flags →
      OperandExposes A (", ".intercalate texts) (flags.any id)
  | _, _, .nil => (Flat.fixed (by decide)).exposes.operand
  | _, _, .cons h .nil => by simpa using h
  | _, _, .cons h (.cons hnext hrest) => by
    rw [String.intercalate_cons_cons, String.append_assoc]
    exact h.append ((operandExposes_list (.cons hnext hrest)).after_separator separator_comma)

end Texts

/-! ## Literals in the tree -/

/-- The type is written as a name, with stars before it or none. -/
def Ty.isStarredName : Ty → Bool
  | named name => !emptyTypes.contains name
  | pointer inner _ => inner.isStarredName
  | _ => false

/-- The sign that the text of the expression starts with, if it exposes a literal as the operand of
a unary operator. -/
def Expr.sign? : Expr → Option Char
  | .unary op _ _ => op.symbol.toList.head?
  | .composite (.pointer _ _) _ _ => some '*'
  | .call base _ _ | .selector base _ _ | .index base _ _ => base.sign?
  | _ => none

/-- Below an operator of strength `outer`, a composite literal with a type name is written outside
brackets. -/
def Expr.exposes (outer : Nat) : Expr → Bool
  | .composite t _ _ => t.isStarredName
  | .binary op left right _ =>
    decide (outer ≤ op.precedence) &&
      (left.exposes op.precedence || right.exposes (op.precedence + 1))
  | .unary op operand _ =>
    decide (outer < Emit.primaryPrecedence) && op.symbol.toList.getLast? != operand.sign? &&
      operand.exposes Emit.unaryPrecedence
  | .call base _ _ | .selector base _ _ | .index base _ _ => base.exposes Emit.primaryPrecedence
  | _ => false

/-! ## Types -/

/-- No name goes on after the place. -/
def Lexical.Alphabet.Apart (A : Alphabet) (before : List Char) : Prop :=
  ∀ c ∈ before.head?, A.isNamePart c = false

/-- The text of a type exposes nothing, and whether it ends in a name depends on whether an operand
starts with it. -/
structure TypeText (A : Alphabet) (text : String) (flag : Bool) : Prop where
  balanced : Balanced text
  exposes_eq : ∀ p : Spot, p.IsOuter → A.Apart p.before → p.exposes A text.toList = false
  endsInName_eq : ∀ before, A.Apart before →
    A.endsInName (text.toList.reverse ++ before) = (flag && startsOperand before)

section Types

variable {A : Alphabet} {text : String} {flag : Bool}

/-- The signs of unary operators are no parts of names. -/
theorem isNamePart_of_isSign {c : Char} (h : isSign c = true) : A.isNamePart c = false := by
  simp only [isSign, List.contains_iff_mem] at h
  have hsign : c ∈ ['-', '!', '^', '<', '&', '*'] := h
  simp only [List.mem_cons, List.not_mem_nil, or_false] at hsign
  rcases hsign with rfl | rfl | rfl | rfl | rfl | rfl <;> rfl

/-- Where an operand starts, no name goes on. -/
theorem apart_of_startsOperand {before : List Char} (h : startsOperand before = true) :
    A.Apart before := by
  cases before with
  | nil => rintro c ⟨⟩
  | cons c rest =>
    rintro _ ⟨⟩
    by_cases hsign : isSign c = true
    · exact isNamePart_of_isSign hsign
    · rw [startsOperand, List.dropWhile_cons_of_neg hsign] at h
      split at h
      · contradiction
      · next heq =>
        cases heq
        rfl
      · cases h

/-- No name ends in a character that is no part of one. -/
theorem endsInName_cons {c : Char} {before : List Char} (h : A.isNamePart c = false) :
    A.endsInName (c :: before) = false := by
  have hempty : A.isName "" = false := rfl
  simp [Alphabet.endsInName, h, hempty]

/-- A name is read back from the text before the place. -/
theorem endsInName_name {before : List Char} (hname : ∀ c ∈ text.toList, A.isNamePart c = true)
    (hbefore : A.Apart before) :
    A.endsInName (text.toList.reverse ++ before) = (A.isName text && startsOperand before) := by
  have hreverse : ∀ c ∈ text.toList.reverse, A.isNamePart c = true :=
    fun c hc => hname c (List.mem_reverse.mp hc)
  have hstop : before.takeWhile A.isNamePart = [] ∧ before.dropWhile A.isNamePart = before := by
    cases before with
    | nil => simp
    | cons c rest => simp [hbefore c rfl]
  rw [Alphabet.endsInName, List.takeWhile_append_of_pos hreverse,
    List.dropWhile_append_of_pos hreverse, hstop.1, hstop.2]
  simp

/-- A keyword is no name. -/
theorem keyword_parts {word : String} (h : word ∈ Lexical.keywords)
    (hletters : (word.toList.all fun c => c.isAlpha && decide (c.toNat < 128)) = true) :
    (∀ c ∈ word.toList, A.isNamePart c = true) ∧ A.isName word = false := by
  have hparts : ∀ c ∈ word.toList, c ≠ '.' ∧ A.isNamePart c = true := by
    intro c hc
    obtain ⟨halpha, hascii⟩ := Bool.and_eq_true_iff.mp (List.all_eq_true.mp hletters c hc)
    have hascii := of_decide_eq_true hascii
    refine ⟨?_, by simp [Alphabet.isNamePart, Alphabet.isPart, Alphabet.isLetter, hascii, halpha]⟩
    rintro rfl
    cases halpha
  refine ⟨fun c hc => (hparts c hc).2, ?_⟩
  have htake : word.toList.takeWhile (· != '.') = word.toList :=
    List.takeWhile_eq_self_iff.mpr fun c hc => by simpa using (hparts c hc).1
  have hdrop : word.toList.dropWhile (· != '.') = [] :=
    List.dropWhile_eq_nil_iff.mpr fun c hc => by simpa using (hparts c hc).1
  have hname : A.isName word = A.isIdentifier word := by
    unfold Alphabet.isName
    rw [htake, hdrop, String.ofList_toList]
  rw [hname]
  cases hidentifier : A.isIdentifier word with
  | false => rfl
  | true =>
    obtain ⟨_, _, -, -, -, hkeyword⟩ := Alphabet.isIdentifier_iff.mp hidentifier
    exact absurd h hkeyword

/-- A keyword before empty braces. -/
theorem typeText_empty {word : String} (h : word ∈ Lexical.keywords)
    (hletters : (word.toList.all fun c => c.isAlpha && decide (c.toNat < 128)) = true) :
    TypeText A (word ++ ("\x7b" ++ "" ++ Emit.closing)) false := by
  obtain ⟨hword, hname⟩ : (∀ c ∈ word.toList, A.isNamePart c = true) ∧ A.isName word = false :=
    keyword_parts h hletters
  have hflat := Flat.of_isNamePart hword
  refine ⟨hflat.balanced.append Balanced.empty.braces, fun p hp hapart => ?_, fun before _ => ?_⟩
  · rw [String.toList_append, Spot.exposes_append, hflat.exposes.exposes_eq p hp,
      Spot.exposes_braces (hp.after hflat.balanced) .empty, Spot.after_before,
      endsInName_name hword hapart, hname]
    rfl
  · have hbraces : ("\x7b" ++ "" ++ Emit.closing).toList.reverse = ['\x7d', '\x7b'] := by decide
    rw [String.toList_append, List.reverse_append, List.append_assoc, hbraces]
    exact endsInName_cons rfl

/-- A type name ends in a name, unless it is one of the empty types with their braces. -/
theorem typeText_named {name : String} (h : (Ty.named name).isLegible A = true) :
    TypeText A name (Ty.named name).isStarredName := by
  by_cases hempty : name ∈ emptyTypes
  · have hflag : (Ty.named name).isStarredName = false := by simp [Ty.isStarredName, hempty]
    rw [hflag]
    simp only [emptyTypes, List.mem_cons, List.not_mem_nil, or_false] at hempty
    rcases hempty with rfl | rfl
    · have hword : "interface\x7b\x7d" = "interface" ++ ("\x7b" ++ "" ++ Emit.closing) := rfl
      rw [hword]
      exact typeText_empty (by decide) (by decide)
    · have hword : "struct\x7b\x7d" = "struct" ++ ("\x7b" ++ "" ++ Emit.closing) := rfl
      rw [hword]
      exact typeText_empty (by decide) (by decide)
  · have hflag : (Ty.named name).isStarredName = true := by simp [Ty.isStarredName, hempty]
    have hname : A.isName name = true := by simpa [Ty.isLegible, hempty] using h
    have hparts := Alphabet.isNamePart_of_isName hname
    have hflat := Flat.of_isNamePart hparts
    refine ⟨hflat.balanced, fun p hp _ => hflat.exposes.exposes_eq p hp, fun before hbefore => ?_⟩
    rw [endsInName_name hparts hbefore, hname, hflag]

theorem apart_cons {c : Char} {rest : List Char} (h : A.isNamePart c = false) :
    A.Apart (c :: rest) := by
  rintro _ ⟨⟩
  exact h

/-- A type after something else exposes nothing at any place. -/
theorem TypeText.exposes_behind {lead : String} (h : TypeText A text flag) (hflat : Flat lead)
    (hapart : ∀ before, A.Apart (lead.toList.reverse ++ before)) :
    Exposes A (lead ++ text) false := by
  refine ⟨hflat.balanced.append h.balanced, fun p hp => ?_⟩
  have hnext : A.Apart (p.after lead.toList).before := by
    rw [Spot.after_before]
    exact hapart p.before
  rw [String.toList_append, Spot.exposes_append, hflat.exposes.exposes_eq p hp,
    h.exposes_eq _ (hp.after hflat.balanced) hnext]
  rfl

/-- The rest of a type, after something that keeps the start of an operand or does not. -/
theorem TypeText.behind {lead : String} (keep : Bool) (h : TypeText A text flag)
    (hflat : Flat lead) (hapart : ∀ before, A.Apart (lead.toList.reverse ++ before))
    (hstarts : ∀ before,
      startsOperand (lead.toList.reverse ++ before) = (keep && startsOperand before)) :
    TypeText A (lead ++ text) (keep && flag) := by
  have hexposes := h.exposes_behind hflat hapart
  refine ⟨hexposes.balanced, fun p hp _ => hexposes.exposes_eq p hp, fun before _ => ?_⟩
  rw [String.toList_append, List.reverse_append, List.append_assoc,
    h.endsInName_eq _ (hapart before), hstarts, Bool.and_left_comm, Bool.and_assoc]

/-- The text of a type exposes nothing and ends in a name if it is a name after stars, by recursion
on the type. -/
theorem typeText_tyText : ∀ {t : Ty} {text : String}, Emit.tyText t = .ok text →
    t.isLegible A = true → TypeText A text t.isStarredName
  | .named name, _, h, hnames => by
    cases h
    exact typeText_named hnames
  | .array element, _, h, hnames => by
    obtain ⟨inner, hinner, h⟩ := bind_eq_ok h
    cases h
    exact (typeText_tyText hinner hnames).behind false Balanced.empty.flat_square
      (fun _ => apart_cons rfl) fun _ => rfl
  | .map key value, _, h, hnames => by
    obtain ⟨k, hk, h⟩ := bind_eq_ok h
    obtain ⟨v, hv, h⟩ := bind_eq_ok h
    obtain ⟨hkey, hvalue⟩ := Bool.and_eq_true_iff.mp hnames
    cases h
    -- Whatever the key is, no operand starts after the bracket behind it.
    have hword : Flat "map" := .fixed (by decide)
    have hflat : Flat ("map" ++ ("[" ++ k ++ "]")) :=
      hword.append (Emit.balanced_tyText hk hkey).flat_square
    have hlead : "map[" ++ k ++ "]" = "map" ++ ("[" ++ k ++ "]") := by
      rw [← String.append_assoc, ← String.append_assoc]
      rfl
    have hlast : ∀ before, ("map" ++ ("[" ++ k ++ "]")).toList.reverse ++ before =
        ']' :: (k.toList.reverse ++ '[' :: 'p' :: 'a' :: 'm' :: before) :=
      fun before => by simp
    rw [hlead]
    refine (typeText_tyText hv hvalue).behind false hflat (fun before => ?_) fun before => ?_
    · rw [hlast]
      exact apart_cons rfl
    · rw [hlast]
      rfl
  | .pointer inner true, _, h, hnames => by
    obtain ⟨inner, hinner, h⟩ := bind_eq_ok h
    cases h
    exact (typeText_tyText hinner hnames).behind true (.fixed (by decide))
      (fun _ => apart_cons rfl) fun _ => rfl
  | .pointer _ false, _, h, _ => by cases h
  | .channel inner direction, _, h, hnames => by
    obtain ⟨inner, hinner, h⟩ := bind_eq_ok h
    have htext := typeText_tyText hinner hnames
    cases direction <;> cases h <;>
      exact htext.behind false (.fixed (by decide)) (fun _ => apart_cons rfl) fun _ => rfl
  | .option _, _, h, _ => by cases h
  | .result _, _, h, _ => by cases h
  | .tuple _, _, h, _ => by cases h

end Types

namespace Emit

variable {A : Alphabet} {text : String}

/-! ## Signs before an operand -/

/-- A name begins with a letter. -/
theorem head_of_isName {name : String} (h : A.isName name = true) :
    ∃ c, name.toList.head? = some c ∧ A.isLetter c = true := by
  have hfront : A.isIdentifier (String.ofList (name.toList.takeWhile (· != '.'))) = true := by
    unfold Alphabet.isName at h
    split at h
    · exact h
    · exact (Bool.and_eq_true_iff.mp h).1
  obtain ⟨c, cs, hchars, hc, -⟩ := Alphabet.isIdentifier_iff.mp hfront
  rw [String.toList_ofList] at hchars
  refine ⟨c, ?_, hc⟩
  rw [← List.takeWhile_append_dropWhile (p := (· != '.')) (l := name.toList), hchars]
  rfl

theorem head_append {other : String} {c : Char} (h : text.toList.head? = some c) :
    (text ++ other).toList.head? = some c := by
  rw [String.toList_append, List.head?_append, h]
  rfl

/-- The text of an expression that exposes a literal starts with its sign, or with a letter. -/
theorem head_of_exposes {indent : Nat} : ∀ {e : Expr} {outer : Nat} {text : String},
    expr outer indent e = .ok text → Within (Node.isLegible A) e.nodes →
      unaryPrecedence ≤ outer → e.exposes outer = true →
        ∃ c, text.toList.head? = some c ∧
          (e.sign? = some c ∨ e.sign? = none ∧ A.isLetter c = true)
  | .ident _ _, _, _, _, _, _, hexposes => by cases hexposes
  | .lit _ _, _, _, _, _, _, hexposes => by cases hexposes
  | .func _ _ _ _, _, _, _, _, _, hexposes => by cases hexposes
  | .ofType _ _, _, _, _, _, _, hexposes => by cases hexposes
  | .template _ _, _, _, _, _, _, hexposes => by cases hexposes
  | .attempt _ _, _, _, _, _, _, hexposes => by cases hexposes
  | .composite t elements span, outer, _, h, hnames, _, hexposes => by
    obtain ⟨texts, htexts, h⟩ := bind_eq_ok h
    obtain ⟨written, hwritten, h⟩ := bind_eq_ok h
    obtain ⟨ht, -⟩ := within_cons.mp hnames
    cases h
    cases t with
    | named name =>
      obtain rfl : name = written := Except.ok.inj (tyText_of_ty hwritten)
      have hnotempty : name ∉ emptyTypes := by
        simpa [Expr.exposes, Ty.isStarredName] using hexposes
      have hname : A.isName name = true := by
        simpa [Node.isLegible, Ty.isLegible, hnotempty] using ht
      obtain ⟨c, hc, hletter⟩ := head_of_isName hname
      exact ⟨c, head_append (head_append (head_append hc)), .inr ⟨rfl, hletter⟩⟩
    | pointer inner nillable =>
      have htext := tyText_of_ty hwritten
      cases nillable with
      | false => cases htext
      | true =>
        obtain ⟨rest, -, htext⟩ := bind_eq_ok htext
        cases htext
        have hstar : ("*" ++ rest).toList.head? = some '*' := head_append rfl
        exact ⟨'*', head_append (head_append (head_append hstar)), .inl rfl⟩
    | _ => cases hexposes
  | .unary op operand _, outer, _, h, _, _, hexposes => by
    obtain ⟨inner, hinner, h⟩ := bind_eq_ok h
    have hprimary : ¬ primaryPrecedence ≤ outer := by
      simp only [Expr.exposes, Bool.and_eq_true, decide_eq_true_eq] at hexposes
      omega
    obtain ⟨c, cs, hsymbol⟩ : ∃ c cs, op.symbol.toList = c :: cs := by
      cases op <;> exact ⟨_, _, rfl⟩
    cases h
    refine ⟨c, ?_, .inl ?_⟩
    · simp only [unaryText, if_neg hprimary, String.toList_append, hsymbol]
      rfl
    · rw [Expr.sign?, hsymbol]
      rfl
  | .binary op left right _, outer, _, _, _, houter, hexposes => by
    have hprecedence : op.precedence < unaryPrecedence := by cases op <;> decide
    simp only [Expr.exposes, Bool.and_eq_true, decide_eq_true_eq] at hexposes
    omega
  | .call base args _, outer, _, h, hnames, _, hexposes => by
    obtain ⟨f, hf, h⟩ := bind_eq_ok h
    obtain ⟨texts, htexts, h⟩ := bind_eq_ok h
    cases h
    obtain ⟨c, hc, hsign⟩ := head_of_exposes hf (within_pair.mp hnames).2.1 (by decide) hexposes
    exact ⟨c, head_append hc, hsign⟩
  | .selector base field _, outer, _, h, hnames, _, hexposes => by
    obtain ⟨b, hb, h⟩ := bind_eq_ok h
    cases h
    obtain ⟨c, hc, hsign⟩ := head_of_exposes hb (within_cons.mp hnames).2 (by decide) hexposes
    exact ⟨c, head_append (head_append hc), hsign⟩
  | .index base index _, outer, _, h, hnames, _, hexposes => by
    obtain ⟨b, hb, h⟩ := bind_eq_ok h
    obtain ⟨i, hi, h⟩ := bind_eq_ok h
    cases h
    obtain ⟨c, hc, hsign⟩ := head_of_exposes hb (within_pair.mp hnames).2.1 (by decide) hexposes
    exact ⟨c, head_append (head_append (head_append hc)), hsign⟩

/-- Parentheses are written between a sign and an operand with a literal if it starts with the
same sign. -/
theorem joins_eq {indent : Nat} {e : Expr} (op : UnaryOp)
    (h : expr unaryPrecedence indent e = .ok text) (hnames : Within (Node.isLegible A) e.nodes)
    (hexposes : e.exposes unaryPrecedence = true) :
    joins op text = (op.symbol.toList.getLast? == e.sign?) := by
  obtain ⟨last, hlast, hlastsign⟩ : ∃ last, op.symbol.toList.getLast? = some last ∧
      isSign last = true := by
    cases op <;> exact ⟨_, rfl, rfl⟩
  obtain ⟨c, hc, hsign⟩ := head_of_exposes h hnames (Nat.le_refl _) hexposes
  simp only [joins, hlast, hc]
  rcases hsign with hsign | ⟨hsign, hletter⟩
  · rw [hsign]
    rfl
  · have hne : last ≠ c := by
      rintro rfl
      have hpart := isNamePart_of_isSign hlastsign (A := A)
      simp [Alphabet.isNamePart, Alphabet.isPart, hletter] at hpart
    simp [hsign, hne]

/-! ## Code -/

/-- A return clause exposes nothing. -/
theorem exposes_returnClause {returns : Option Ty} {span : Span}
    (h : returnClause span returns = .ok text)
    (hnames : (returns.all fun t => t.slots.all (Ty.isLegible A)) = true) :
    Exposes A text false := by
  rcases returnClause_cases h hnames with
    rfl | ⟨t, inner, ht, hinner, rfl⟩ | ⟨inner, hinner, rfl⟩
  · exact (Flat.fixed (by decide)).exposes
  · exact (typeText_tyText (tyText_of_ty hinner) ht).exposes_behind .blank fun _ => apart_cons rfl
  · exact (Flat.blank.append hinner.flat_parens).exposes

/-- The brace of a block stands after a blank. -/
theorem exposes_lines {body : String} (h : Balanced body) (indent : Nat) :
    Exposes A (" " ++ (opening ++ body ++ tabs indent ++ closing)) false := by
  have hinner : Balanced ("\n" ++ body ++ tabs indent) :=
    (Balanced.newline.append h).append (.tabs indent)
  have hopening : opening = "\x7b" ++ "\n" := rfl
  have hbraces : opening ++ body ++ tabs indent ++ closing =
      "\x7b" ++ ("\n" ++ body ++ tabs indent) ++ closing := by
    simp only [hopening, String.append_assoc]
  rw [hbraces]
  refine ⟨Balanced.blank.append hinner.braces, fun p hp => ?_⟩
  have hbefore : " ".toList.reverse ++ p.before = ' ' :: p.before := rfl
  rw [String.toList_append, Spot.exposes_append, Flat.blank.exposes.exposes_eq p hp,
    Spot.exposes_braces (hp.after .blank) hinner, Spot.after_before, hbefore,
    endsInName_cons rfl, Bool.or_false]

/-- An operator exposes what its operands expose, unless it is put in parentheses. -/
theorem operandExposes_binaryText {left right : String} {flag flag' : Bool} (outer : Nat)
    (op : BinaryOp) (hleft : OperandExposes A left flag) (hright : OperandExposes A right flag') :
    OperandExposes A (binaryText outer op left right)
      (decide (outer ≤ op.precedence) && (flag || flag')) := by
  have hop : Separator (" " ++ op.symbol ++ " ") := by
    cases op <;> exact ⟨.fixed (by decide), fun _ => rfl⟩
  have htext : OperandExposes A (left ++ " " ++ op.symbol ++ " " ++ right) (flag || flag') := by
    simpa only [String.append_assoc] using hleft.append (hright.after_separator hop)
  unfold binaryText
  split
  · next hlt =>
    rw [decide_eq_false (by omega), Bool.false_and]
    exact htext.balanced.flat_parens.exposes.operand
  · next hlt =>
    rw [decide_eq_true (by omega), Bool.true_and]
    exact htext

/-- An operator before an operand exposes what the operand exposes, unless one of them is put in
parentheses. -/
theorem operandExposes_unaryText {indent : Nat} {e : Expr} (outer : Nat) (op : UnaryOp)
    (h : expr unaryPrecedence indent e = .ok text) (hnames : Within (Node.isLegible A) e.nodes)
    (htext : OperandExposes A text (e.exposes unaryPrecedence)) :
    OperandExposes A (unaryText outer op text)
      (decide (outer < primaryPrecedence) && op.symbol.toList.getLast? != e.sign? &&
        e.exposes unaryPrecedence) := by
  have hflat : Flat op.symbol := by cases op <;> exact .fixed (by decide)
  have hsigns : ∀ before,
      startsOperand (op.symbol.toList.reverse ++ before) = startsOperand before := by
    cases op <;> exact fun _ => rfl
  have hoperand : OperandExposes A (if joins op text then parens text else text)
      (op.symbol.toList.getLast? != e.sign? && e.exposes unaryPrecedence) := by
    -- How the operand starts is known only if it exposes a literal, and matters only then.
    cases hexposes : e.exposes unaryPrecedence with
    | false =>
      rw [hexposes] at htext
      rw [Bool.and_false]
      split
      · exact htext.balanced.flat_parens.exposes.operand
      · exact htext
    | true =>
      rw [hexposes] at htext
      rw [joins_eq op h hnames hexposes, Bool.and_true, bne]
      split
      · next hsame =>
        rw [hsame]
        exact htext.balanced.flat_parens.exposes.operand
      · next hsame =>
        rw [Bool.eq_false_iff.mpr hsame]
        exact htext
  have hsigned := hoperand.signed hflat hsigns
  by_cases hprimary : primaryPrecedence ≤ outer
  · rw [decide_eq_false (by omega), Bool.false_and, Bool.false_and]
    simpa only [unaryText, if_pos hprimary] using hsigned.balanced.flat_parens.exposes.operand
  · rw [decide_eq_true (by omega), Bool.true_and]
    simpa only [unaryText, if_neg hprimary] using hsigned

/-- A literal is exposed in the text of an expression exactly if it is in the tree. -/
theorem exposes_expr {indent : Nat} : ∀ {e : Expr} {outer : Nat} {text : String},
    expr outer indent e = .ok text → Within (Node.isLegible A) e.nodes →
      OperandExposes A text (e.exposes outer)
  | .ident name _, _, _, h, hnames => by
    cases h
    exact (Flat.of_isName (within_leaf.mp hnames)).exposes.operand
  | .lit value span, _, _, h, _ => (flat_literal h).exposes.operand
  | .binary op left right _, outer, _, h, hnames => by
    obtain ⟨l, hl, h⟩ := bind_eq_ok h
    obtain ⟨r, hr, h⟩ := bind_eq_ok h
    obtain ⟨-, hleft, hright⟩ := within_pair.mp hnames
    cases h
    exact operandExposes_binaryText outer op (exposes_expr hl hleft) (exposes_expr hr hright)
  | .unary op operand _, outer, _, h, hnames => by
    obtain ⟨inner, hinner, h⟩ := bind_eq_ok h
    obtain ⟨-, hoperand⟩ := within_cons.mp hnames
    cases h
    exact operandExposes_unaryText outer op hinner hoperand (exposes_expr hinner hoperand)
  | .call callee args _, _, _, h, hnames => by
    obtain ⟨f, hf, h⟩ := bind_eq_ok h
    obtain ⟨texts, htexts, h⟩ := bind_eq_ok h
    obtain ⟨-, hcallee, hargs⟩ := within_pair.mp hnames
    cases h
    exact (exposes_expr hf hcallee).append_flat
      (balanced_list (balanced_exprs htexts hargs)).flat_parens
  | .selector base field _, _, _, h, hnames => by
    obtain ⟨b, hb, h⟩ := bind_eq_ok h
    obtain ⟨hfield, hbase⟩ := within_cons.mp hnames
    cases h
    have hdot : Flat "." := .fixed (by decide)
    rw [String.append_assoc]
    exact (exposes_expr hb hbase).append_flat (hdot.append (.of_isIdentifier hfield))
  | .index base index _, _, _, h, hnames => by
    obtain ⟨b, hb, h⟩ := bind_eq_ok h
    obtain ⟨i, hi, h⟩ := bind_eq_ok h
    obtain ⟨-, hbase, hindex⟩ := within_pair.mp hnames
    cases h
    simpa only [String.append_assoc, Expr.exposes] using
      (exposes_expr hb hbase).append_flat (balanced_expr hi hindex).flat_square
  | .composite t elements span, _, _, h, hnames => by
    obtain ⟨texts, htexts, h⟩ := bind_eq_ok h
    obtain ⟨written, hwritten, h⟩ := bind_eq_ok h
    obtain ⟨ht, helements⟩ := within_cons.mp hnames
    cases h
    have htype := typeText_tyText (tyText_of_ty hwritten) ht
    have hinner := balanced_list (balanced_elementTexts htexts helements)
    -- The text of the type decides alone: what stands between the braces is not read.
    have hassoc : written ++ "\x7b" ++ ", ".intercalate texts ++ closing =
        written ++ ("\x7b" ++ ", ".intercalate texts ++ closing) := by
      simp only [String.append_assoc]
    rw [hassoc]
    refine ⟨htype.balanced.append hinner.braces, fun p hp hstart => ?_⟩
    have hapart : A.Apart p.before := apart_of_startsOperand hstart
    rw [String.toList_append, Spot.exposes_append, htype.exposes_eq p hp hapart,
      Spot.exposes_braces (hp.after htype.balanced) hinner, Spot.after_before,
      htype.endsInName_eq _ hapart, hstart, Bool.and_true]
    rfl
  | .func ps returns body span, _, _, h, hnames => by
    obtain ⟨lines, hlines, h⟩ := bind_eq_ok h
    obtain ⟨head, hhead, h⟩ := bind_eq_ok h
    obtain ⟨hself, hbody⟩ := within_cons.mp hnames
    obtain ⟨texts, htexts, hhead⟩ := bind_eq_ok hhead
    obtain ⟨clause, hclause, hhead⟩ := bind_eq_ok hhead
    obtain ⟨hparams, hreturns⟩ := Bool.and_eq_true_iff.mp hself
    cases h
    cases hhead
    -- The brace of the body stands after a blank, and a brace in the result after a keyword.
    have hfunc : Flat "func" := .fixed (by decide)
    have hlist := balanced_list (balanced_params htexts hparams)
    have htext := ((hfunc.append hlist.flat_parens).exposes.append
      (exposes_returnClause hclause hreturns)).append
        (exposes_lines (balanced_block hlines hbody) indent)
    simpa only [String.append_assoc, Expr.exposes, Bool.or_false] using htext.operand
  | .ofType t span, outer, _, h, hnames => by
    obtain ⟨written, hwritten, h⟩ := bind_eq_ok h
    have htype := typeText_tyText (tyText_of_ty hwritten) (within_leaf.mp hnames)
    cases h
    unfold tyExprText
    split
    · exact htype.balanced.flat_parens.exposes.operand
    · exact ⟨htype.balanced, fun p hp hstart =>
        htype.exposes_eq p hp (apart_of_startsOperand hstart)⟩
  | .template _ _, _, _, h, _ => by cases h
  | .attempt _ _, _, _, h, _ => by cases h

end Emit

end Desugar
