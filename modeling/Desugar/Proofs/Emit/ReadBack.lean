import Desugar.Emit.Code
import Desugar.Proofs.Emit.Grammar

/-!
# Written expressions read back

The text of an expression over names has one reading, the tree it was written from: its
parentheses and blanks keep the operators in their places, and no operator joins the one after it.

* `Expr.formula?` is the tree of an expression without its places in the source.
* `Written` says that a text has tokens which are an expression of a level.
* `expr_written` follows the writing of an expression, with the level that its context asks for.
* `expr_reads_back` is the result: the text is split in one way, and its tokens have one tree.
-/

namespace Desugar

open Lexical (Alphabet Token Scans Spells lex grows)
open Emit (joins)

mutual
/-- The tree of an expression over names, operators, calls, selectors and indices. -/
def Expr.formula? : Expr → Option Formula
  | .ident name _ => some (.ident name)
  | .binary op left right _ => do
    let left ← left.formula?
    let right ← right.formula?
    some (.binary op left right)
  | .unary op operand _ => do
    let operand ← operand.formula?
    some (.unary op operand)
  | .call callee args _ => do
    let callee ← callee.formula?
    let args ← formulas? args
    some (.call callee args)
  | .selector base field _ => do
    let base ← base.formula?
    some (.selector base field)
  | .index base index _ => do
    let base ← base.formula?
    let index ← index.formula?
    some (.index base index)
  | .lit _ _ | .template _ _ | .attempt _ _ | .composite _ _ _ | .func _ _ _ _ | .ofType _ _ => none

/-- The trees of the expressions of a list. -/
def formulas? : List Expr → Option (List Formula)
  | [] => some []
  | e :: rest => do
    let x ← e.formula?
    let xs ← formulas? rest
    some (x :: xs)
end

namespace Formula

/-- The expression has an address. -/
def isAddressable : Formula → Bool
  | .ident _ | .selector _ _ | .index _ _ | .unary .deref _ => true
  | _ => false

/-- Of what is written with an operator before it, only a dereferenced pointer has an address. -/
theorem isAddressable_unary {op : UnaryOp} {x : Formula} :
    (unary op x).isAddressable = true ↔ op = .deref := by
  cases op <;> simp [isAddressable]

mutual
/-- All names are identifiers and only what has an address has it taken. -/
def isProper (A : Alphabet) : Formula → Bool
  | .ident name => A.isIdentifier name
  | .binary _ left right => left.isProper A && right.isProper A
  | .unary op operand => operand.isProper A && (op != .addressOf || operand.isAddressable)
  | .call callee args => callee.isProper A && areProper A args
  | .selector base field => base.isProper A && A.isIdentifier field
  | .index base i => base.isProper A && i.isProper A

/-- All expressions of a list are proper. -/
def areProper (A : Alphabet) : List Formula → Bool
  | [] => true
  | x :: xs => x.isProper A && areProper A xs
end

variable {A : Alphabet}

/-- The text of an expression of the level can begin with the character. -/
def Begins (A : Alphabet) (level : Nat) (x : Formula) (c : Char) : Prop :=
  A.isLetter c = true ∨ c = '(' ∨
    ∃ op : UnaryOp, op.symbol.toList.head? = some c ∧ level ≤ 6 ∧
      (level = 6 → ∃ y, x = .unary op y)

/-- The text has the tokens, which are an expression of the level with the given tree. -/
structure Written (A : Alphabet) (level : Nat) (text : String) (tokens : List Token)
    (x : Formula) : Prop where
  spells : Spells A text.toList tokens
  derives : Derives level tokens x
  begins : ∃ c, text.toList.head? = some c ∧ Begins A level x c

namespace Written

variable {level : Nat} {text : String} {tokens : List Token} {x : Formula}

/-- What is written as an expression of a level is one of all lower levels. -/
theorem lower {low : Nat} (h : Written A level text tokens x) (hlow : low ≤ level) :
    Written A low text tokens x := by
  obtain ⟨c, hc, hbegins⟩ := h.begins
  refine ⟨h.spells, h.derives.lower hlow, c, hc, ?_⟩
  rcases hbegins with hletter | hopen | ⟨op, hop, hlevel, htop⟩
  · exact .inl hletter
  · exact .inr (.inl hopen)
  · exact .inr (.inr ⟨op, hop, by omega, fun heq => htop (by omega)⟩)

/-- An identifier is an operand. -/
theorem ident {name : String} (h : A.isIdentifier name = true) :
    Written A 7 name [.ident name] (.ident name) := by
  obtain ⟨c, cs, hchars, hc, -⟩ := Alphabet.isIdentifier_iff.mp h
  exact ⟨Lexical.spells_ident h, .ident, c, by rw [hchars]; rfl, .inl hc⟩

/-- What is in parentheses is an operand. -/
theorem parens (h : Written A 0 text tokens x) :
    Written A 7 (Emit.parens text) (.symbol "(" :: (tokens ++ [.symbol ")"])) x := by
  refine ⟨fun rest _ => ?_, .parens h.derives, '(', by simp [Emit.parens], .inr (.inl rfl)⟩
  rw [Emit.parens, String.toList_append, String.toList_append, List.append_assoc, List.append_assoc]
  exact h.spells.enclosed (by decide) (by decide) rest

/-- What follows an expression of the highest level leaves its beginning as it is. -/
theorem begins_append (h : Written A 7 text tokens x) (more : String)
    (y : Formula) : ∃ c, (text ++ more).toList.head? = some c ∧ Begins A 7 y c := by
  obtain ⟨c, hc, hletter | hopen | ⟨_, _, hlevel, _⟩⟩ := h.begins
  · exact ⟨c, by simp [hc], .inl hletter⟩
  · exact ⟨c, by simp [hc], .inr (.inl hopen)⟩
  · exact absurd hlevel (by decide)

/-- A selector of an operand is an operand. -/
theorem selector {field : String} (h : Written A 7 text tokens x)
    (hfield : A.isIdentifier field = true) :
    Written A 7 (text ++ "." ++ field) (tokens ++ [.symbol ".", .ident field])
      (.selector x field) := by
  refine ⟨fun rest hrest => ?_, .selector h.derives, ?_⟩
  · simp only [String.toList_append, List.append_assoc]
    have hdot : Scans A (".".toList ++ (field.toList ++ rest)) [.symbol "."]
        (field.toList ++ rest) := by
      obtain ⟨c, cs, hchars, hc, -⟩ := Alphabet.isIdentifier_iff.mp hfield
      refine .symbol (by decide) (by decide) ?_
      rw [hchars]
      rintro d ⟨⟩
      exact Lexical.grows_of_isPart (Bool.or_eq_true_iff.mpr (.inl hc))
    have hname := Lexical.spells_ident hfield rest hrest
    exact (h.spells _ (Lexical.parts_symbol (by decide) _)).trans (hdot.trans hname)
  · rw [String.append_assoc]
    exact h.begins_append _ _

/-- An index of an operand is an operand. -/
theorem index {inner : String} {innerTokens : List Token} {i : Formula}
    (h : Written A 7 text tokens x) (hindex : Written A 0 inner innerTokens i) :
    Written A 7 (text ++ "[" ++ inner ++ "]")
      (tokens ++ .symbol "[" :: (innerTokens ++ [.symbol "]"])) (.index x i) := by
  refine ⟨fun rest _ => ?_, .index h.derives hindex.derives, ?_⟩
  · simp only [String.toList_append, List.append_assoc]
    have hinner := hindex.spells.enclosed (by decide : "[" ∈ _) (by decide : "]" ∈ _) rest
    exact (h.spells _ (Lexical.parts_symbol (by decide) _)).trans hinner
  · simp only [String.append_assoc]
    exact h.begins_append _ _

/-- Arguments with commas between them have the tokens of the arguments, with commas between. -/
theorem spells_intercalate {texts : List String} {args : List (List Token × Formula)}
    (h : List.Forall₂ (fun text a => Written A 0 text a.1 a.2) texts args) :
    Spells A (", ".intercalate texts).toList (commas (args.map Prod.fst)) := by
  intro rest hrest
  induction h with
  | nil => exact .refl rest
  | @cons text a texts args ha hargs ih =>
    cases hargs with
    | nil =>
      have hone : commas ([a].map Prod.fst) = a.1 := by simp [commas]
      rw [String.intercalate_singleton, hone]
      exact ha.spells rest hrest
    | @cons next b texts args _ _ =>
      have hmore : commas ((a :: b :: args).map Prod.fst) =
          a.1 ++ ([.symbol ","] ++ ([] ++ commas ((b :: args).map Prod.fst))) := by simp [commas]
      have hcomma : ", ".toList = ",".toList ++ " ".toList := rfl
      rw [String.intercalate_cons_cons, hmore, String.toList_append, String.toList_append, hcomma]
      simp only [List.append_assoc]
      refine (ha.spells _ (Lexical.parts_symbol (by decide) _)).trans ?_
      exact (Scans.bracket (by decide) _).trans ((Scans.blank _).trans ih)

/-- A call of an operand is an operand. -/
theorem call {texts : List String} {args : List (List Token × Formula)}
    (h : Written A 7 text tokens x)
    (hargs : List.Forall₂ (fun text a => Written A 0 text a.1 a.2) texts args) :
    Written A 7 (text ++ Emit.parens (", ".intercalate texts))
      (tokens ++ .symbol "(" :: (commas (args.map Prod.fst) ++ [] ++ [.symbol ")"]))
      (.call x (args.map Prod.snd)) := by
  refine ⟨fun rest _ => ?_, .call h.derives ?_ (.inl rfl), h.begins_append _ _⟩
  · simp only [Emit.parens, String.toList_append, List.append_assoc]
    have hlist :=
      (spells_intercalate hargs).enclosed (by decide : "(" ∈ _) (by decide : ")" ∈ _) rest
    exact (h.spells _ (Lexical.parts_symbol (by decide) _)).trans hlist
  · induction hargs with
    | nil => simp
    | cons ha _ ih => exact List.forall_mem_cons.mpr ⟨ha.derives, ih⟩

/-- Blanks keep an operator apart from its operands. -/
theorem binary {op : BinaryOp} {left right : String} {leftTokens rightTokens : List Token}
    {y : Formula} (hleft : Written A op.precedence left leftTokens x)
    (hright : Written A (op.precedence + 1) right rightTokens y) :
    Written A op.precedence (left ++ " " ++ op.symbol ++ " " ++ right)
      (leftTokens ++ .symbol op.symbol :: rightTokens) (.binary op x y) := by
  have hmem : (op.symbol, op) ∈ binaryOperators op.precedence := mem_binaryOperators.mpr ⟨rfl, rfl⟩
  refine ⟨fun rest hrest => ?_, .binary hmem hleft.derives hright.derives, ?_⟩
  · have hop : Scans A (op.symbol.toList ++ (" ".toList ++ (right.toList ++ rest)))
        [.symbol op.symbol] (" ".toList ++ (right.toList ++ rest)) := by
      refine .symbol (by cases op <;> decide) (by cases op <;> decide) ?_
      rintro c ⟨⟩
      exact Lexical.grows_blank _
    simp only [String.toList_append, List.append_assoc]
    refine (hleft.spells _ (Lexical.parts_blank _)).trans ((Scans.blank _).trans ?_)
    exact hop.trans ((Scans.blank _).trans (hright.spells rest hrest))
  · obtain ⟨c, hc, hbegins⟩ := hleft.begins
    refine ⟨c, by simp [hc], ?_⟩
    have hlt := precedence_lt_unary op
    rcases hbegins with hletter | hopen | ⟨first, hfirst, hlevel, -⟩
    · exact .inl hletter
    · exact .inr (.inl hopen)
    · exact .inr (.inr ⟨first, hfirst, hlevel, fun heq => by omega⟩)

/-- An operator stands right before its operand, so that the two must not join to a longer symbol.
-/
theorem unary {op : UnaryOp} (h : Written A 6 text tokens x)
    (hapart : ∀ c ∈ text.toList.head?, grows op.symbol c = false) :
    Written A 6 (op.symbol ++ text) (.symbol op.symbol :: tokens) (.unary op x) := by
  obtain ⟨first, hfirst⟩ : ∃ c, op.symbol.toList.head? = some c := by
    cases op <;> exact ⟨_, rfl⟩
  have hmem : (op.symbol, op) ∈ unaryOperators := mem_unaryOperators.mpr rfl
  refine ⟨fun rest hrest => ?_, .unary hmem h.derives, first, by simp [hfirst],
    .inr (.inr ⟨op, hfirst, Nat.le_refl _, fun _ => ⟨x, rfl⟩⟩)⟩
  obtain ⟨c, hc, -⟩ := h.begins
  have hop : Scans A (op.symbol.toList ++ (text.toList ++ rest)) [.symbol op.symbol]
      (text.toList ++ rest) := by
    refine .symbol (by cases op <;> decide) (by cases op <;> decide) ?_
    rw [List.head?_append, hc]
    rintro d ⟨⟩
    exact hapart c hc
  rw [String.toList_append, List.append_assoc]
  exact hop.trans (h.spells rest hrest)

/-- Two operators that follow each other are read apart if their characters at the seam differ,
where the address operator stands before a dereference only. -/
theorem grows_unary {op first : UnaryOp} {c : Char} (hfirst : first.symbol.toList.head? = some c)
    (hlast : op.symbol.toList.getLast? ≠ some c) (haddress : op = .addressOf → first = .deref) :
    grows op.symbol c = false := by
  have htable : ∀ p ∈ unaryOperators, ∀ q ∈ unaryOperators, (p.2 = .addressOf → q.2 = .deref) →
      q.1.toList.head?.all (fun c => p.1.toList.getLast? == some c || !grows p.1 c) = true := by
    decide +kernel
  have hseam := htable (op.symbol, op) (mem_unaryOperators.mpr rfl) (first.symbol, first)
    (mem_unaryOperators.mpr rfl) haddress
  simpa [hfirst, hlast] using hseam

/-- An operator before an operand does not join it, unless their characters at the seam agree. -/
theorem grows_of_not_joins {op : UnaryOp} (h : Written A 6 text tokens x)
    (haddress : op = .addressOf → x.isAddressable = true) (hjoins : joins op text = false) :
    ∀ c ∈ text.toList.head?, grows op.symbol c = false := by
  obtain ⟨c, hc, hbegins⟩ := h.begins
  rw [hc]
  rintro d ⟨⟩
  rcases hbegins with hletter | rfl | ⟨first, hfirst, -, htop⟩
  · exact Lexical.grows_of_isPart (Bool.or_eq_true_iff.mpr (.inl hletter))
  · cases op <;> decide +kernel
  · -- the operand starts with an operator of its own
    obtain ⟨y, rfl⟩ := htop rfl
    refine grows_unary hfirst (fun hlast => ?_) fun hop => ?_
    · simp [joins, hc, hlast] at hjoins
    · exact isAddressable_unary.mp (haddress hop)

/-- The level of an expression is raised by parentheses where its context asks for more. -/
theorem enclose {outer : Nat} (h : Written A level text tokens x) (houter : outer ≤ 7) :
    ∃ tokens, Written A outer (if level < outer then Emit.parens text else text) tokens x := by
  split
  · exact ⟨_, (h.lower (Nat.zero_le _)).parens.lower houter⟩
  next hlevel => exact ⟨_, h.lower (Nat.le_of_not_lt hlevel)⟩

end Written

/-! ## Writing an expression -/

/-- A unary expression is written with parentheses around an operand that would join it. -/
theorem unary_written {op : UnaryOp} {text : String} {tokens : List Token} {x : Formula}
    {outer : Nat} (h : Written A 6 text tokens x)
    (haddress : op = .addressOf → x.isAddressable = true) (houter : outer ≤ 7) :
    ∃ tokens, Written A outer (Emit.unaryText outer op text) tokens (.unary op x) := by
  unfold Emit.unaryText
  cases hjoins : joins op text with
  | false => exact (h.unary (h.grows_of_not_joins haddress hjoins)).enclose houter
  | true =>
    have hparens := (h.lower (Nat.zero_le _)).parens.lower (Nat.le_succ 6)
    refine (hparens.unary ?_).enclose houter
    intro c hc
    obtain rfl : c = '(' := by simpa [Emit.parens, eq_comm] using hc
    cases op <;> decide +kernel

mutual
/-- The text of an expression has tokens that the grammar reads at the level of its context. -/
theorem expr_written (indent : Nat) : ∀ (e : Expr) {x : Formula} {outer : Nat},
    e.formula? = some x → x.isProper A = true → outer ≤ 7 →
    ∃ text tokens, Emit.expr outer indent e = .ok text ∧ Written A outer text tokens x
  | .ident name _, x, outer, he, hx, houter => by
    cases he
    exact ⟨name, _, rfl, (Written.ident hx).lower houter⟩
  | .binary op left right _, x, outer, he, hx, houter => by
    simp only [Expr.formula?, Option.bind_eq_bind, Option.bind_eq_some_iff, Option.some.injEq] at he
    obtain ⟨l, hl, r, hr, rfl⟩ := he
    obtain ⟨hxl, hxr⟩ := Bool.and_eq_true_iff.mp hx
    have hlt := precedence_lt_unary op
    obtain ⟨leftText, leftTokens, hleft, hwl⟩ :=
      expr_written indent left hl hxl (by omega : op.precedence ≤ 7)
    obtain ⟨rightText, rightTokens, hright, hwr⟩ :=
      expr_written indent right hr hxr (by omega : op.precedence + 1 ≤ 7)
    obtain ⟨tokens, hw⟩ := (hwl.binary hwr).enclose houter
    exact ⟨_, tokens, by rw [Emit.expr, hleft, hright]; rfl, hw⟩
  | .unary op operand _, x, outer, he, hx, houter => by
    simp only [Expr.formula?, Option.bind_eq_bind, Option.bind_eq_some_iff, Option.some.injEq] at he
    obtain ⟨y, hy, rfl⟩ := he
    simp only [isProper, Bool.and_eq_true, Bool.or_eq_true, bne_iff_ne, ne_eq] at hx
    have hlevel : Emit.unaryPrecedence ≤ 7 := by decide
    obtain ⟨text, tokens, htext, hw⟩ := expr_written indent operand hy hx.1 hlevel
    obtain ⟨tokens, hw⟩ := unary_written hw (fun hop => hx.2.resolve_left (· hop)) houter
    exact ⟨_, tokens, by rw [Emit.expr, htext]; rfl, hw⟩
  | .call callee args _, x, outer, he, hx, houter => by
    simp only [Expr.formula?, Option.bind_eq_bind, Option.bind_eq_some_iff, Option.some.injEq] at he
    obtain ⟨y, hy, ys, hys, rfl⟩ := he
    obtain ⟨hxy, hxys⟩ := Bool.and_eq_true_iff.mp hx
    have hlevel : Emit.primaryPrecedence ≤ 7 := Nat.le_refl _
    obtain ⟨text, tokens, htext, hw⟩ := expr_written indent callee hy hxy hlevel
    obtain ⟨texts, written, htexts, rfl, hwritten⟩ := exprs_written indent args hys hxys
    exact ⟨_, _, by rw [Emit.expr, htext, htexts]; rfl, (hw.call hwritten).lower houter⟩
  | .selector base field _, x, outer, he, hx, houter => by
    simp only [Expr.formula?, Option.bind_eq_bind, Option.bind_eq_some_iff, Option.some.injEq] at he
    obtain ⟨y, hy, rfl⟩ := he
    obtain ⟨hxy, hfield⟩ := Bool.and_eq_true_iff.mp hx
    have hlevel : Emit.primaryPrecedence ≤ 7 := Nat.le_refl _
    obtain ⟨text, tokens, htext, hw⟩ := expr_written indent base hy hxy hlevel
    exact ⟨_, _, by rw [Emit.expr, htext]; rfl, (hw.selector hfield).lower houter⟩
  | .index base inner _, x, outer, he, hx, houter => by
    simp only [Expr.formula?, Option.bind_eq_bind, Option.bind_eq_some_iff, Option.some.injEq] at he
    obtain ⟨y, hy, i, hi, rfl⟩ := he
    obtain ⟨hxy, hxi⟩ := Bool.and_eq_true_iff.mp hx
    have hlevel : Emit.primaryPrecedence ≤ 7 := Nat.le_refl _
    obtain ⟨text, tokens, htext, hw⟩ := expr_written indent base hy hxy hlevel
    obtain ⟨innerText, innerTokens, hinner, hwi⟩ := expr_written indent inner hi hxi (Nat.zero_le _)
    exact ⟨_, _, by rw [Emit.expr, htext, hinner]; rfl, (hw.index hwi).lower houter⟩
  | .lit _ _, _, _, he, _, _ | .template _ _, _, _, he, _, _ | .attempt _ _, _, _, he, _, _
  | .composite _ _ _, _, _, he, _, _ | .func _ _ _ _, _, _, he, _, _
  | .ofType _ _, _, _, he, _, _ => by cases he

theorem exprs_written (indent : Nat) : ∀ (es : List Expr) {xs : List Formula},
    formulas? es = some xs → areProper A xs = true →
    ∃ texts args, Emit.exprs indent es = .ok texts ∧ args.map Prod.snd = xs ∧
      List.Forall₂ (fun text a => Written A 0 text a.1 a.2) texts args
  | [], xs, hes, _ => by
    cases hes
    exact ⟨[], [], rfl, rfl, .nil⟩
  | e :: es, xs, hes, hxs => by
    simp only [formulas?, Option.bind_eq_bind, Option.bind_eq_some_iff, Option.some.injEq] at hes
    obtain ⟨y, hy, ys, hys, rfl⟩ := hes
    obtain ⟨hxy, hxys⟩ := Bool.and_eq_true_iff.mp hxs
    obtain ⟨text, tokens, htext, hw⟩ := expr_written indent e hy hxy (Nat.zero_le _)
    obtain ⟨texts, args, htexts, rfl, hargs⟩ := exprs_written indent es hys hxys
    exact ⟨text :: texts, (tokens, y) :: args, by rw [Emit.exprs, htext, htexts]; rfl, rfl,
      .cons hw hargs⟩
end

end Formula

open Formula (Derives)

/-- The text of an expression over names is split into tokens of which the grammar makes one tree,
that of the expression. -/
theorem expr_reads_back (A : Alphabet) (indent : Nat) {e : Expr} {x : Formula}
    (he : e.formula? = some x) (hx : x.isProper A = true) :
    ∃ text tokens, Emit.expr 0 indent e = .ok text ∧ lex A text.toList = some tokens ∧
      ∀ tree, Derives 0 tokens tree ↔ tree = x := by
  obtain ⟨text, tokens, htext, hw⟩ := Formula.expr_written indent e he hx (Nat.zero_le _)
  refine ⟨text, tokens, htext, hw.spells.lex_eq, fun tree => ⟨fun htree => ?_, ?_⟩⟩
  · exact htree.unique hw.derives
  · rintro rfl
    exact hw.derives

/-- Operators that would join, operands on both sides that would regroup, and a dereference that
is called. -/
def seams : Expr :=
  let name (text : String) : Expr := .ident text {}
  let received : Expr :=
    .unary .receive
      (.call (.unary .deref (name "f") {})
        [name "x", .unary .addressOf (.unary .deref (name "p") {}) {}] {}) {}
  .binary .andNot (.unary .neg (.unary .neg (name "a") {}) {})
    (.binary .sub (name "b")
      (.binary .sub received (.index (.selector (name "s") "next" {}) (name "i") {}) {}) {}) {}

/-- The expression `seams` is read back as it is, with the parentheses that this takes. -/
theorem expr_reads_back_seams :
    Emit.expr 0 0 seams = .ok "-(-a) &^ (b - (<-(*f)(x, &*p) - s.next[i]))" ∧
      ∃ x, seams.formula? = some x ∧ x.isProper ⟨fun _ => false, fun _ => false⟩ = true ∧
        ∃ text tokens, Emit.expr 0 0 seams = .ok text ∧
          lex ⟨fun _ => false, fun _ => false⟩ text.toList = some tokens ∧
          ∀ tree, Derives 0 tokens tree ↔ tree = x :=
  ⟨rfl, _, rfl, by decide +kernel, expr_reads_back _ 0 rfl (by decide +kernel)⟩

end Desugar
