import Desugar.Tree
import Desugar.Proofs.Emit.Token

/-!
# The expression grammar

Expressions over names, operators, calls, selectors and indices, and how the base language reads
them from tokens. The grammar has a level for each strength of binary operators, 1 to 5, all of
which associate to the left, above them the operators before an operand, and at the top what can
be called, selected from and indexed. Parentheses lead from the lowest level to the highest.

* `Derives` is the grammar.
* `read` is a reader with a stack, which takes the tokens one after the other.
* `Derives.takes` follows the reader through a derivation; so tokens have at most one tree,
  `Derives.unique`.
-/

namespace Desugar

open Lexical (Token)

/-- An expression over names, without its places in the source. -/
inductive Formula where
  | ident (name : String)
  | binary (op : BinaryOp) (left right : Formula)
  | unary (op : UnaryOp) (operand : Formula)
  | call (callee : Formula) (args : List Formula)
  | selector (base : Formula) (field : String)
  | index (base index : Formula)

namespace Formula

/-- The tokens of arguments, with commas between them. -/
def commas (args : List (List Token)) : List Token := [Token.symbol ","].intercalate args

/-- The operators between operands that have the level. -/
def binaryOperators : Nat → List (String × BinaryOp)
  | 1 => [("||", .or)]
  | 2 => [("&&", .and)]
  | 3 => [("==", .eq), ("!=", .ne), ("<", .lt), ("<=", .le), (">", .gt), (">=", .ge)]
  | 4 => [("+", .add), ("-", .sub), ("|", .bitOr), ("^", .bitXor)]
  | 5 => [("*", .mul), ("/", .div), ("%", .rem), ("<<", .shl), (">>", .shr), ("&", .bitAnd),
      ("&^", .andNot)]
  | _ => []

/-- The operators before an operand. -/
def unaryOperators : List (String × UnaryOp) :=
  [("-", .neg), ("!", .not), ("^", .bitNot), ("*", .deref), ("&", .addressOf), ("<-", .receive)]

/-- The tokens are an expression of the level with the given tree. Level 0 is that of all
expressions, 6 that of the operators before an operand, and 7 the highest. -/
inductive Derives : Nat → List Token → Formula → Prop where
  | ident {name} : Derives 7 [.ident name] (.ident name)
  | parens {tokens x} (inner : Derives 0 tokens x) :
    Derives 7 (.symbol "(" :: (tokens ++ [.symbol ")"])) x
  | selector {tokens base field} (hbase : Derives 7 tokens base) :
    Derives 7 (tokens ++ [.symbol ".", .ident field]) (.selector base field)
  | index {tokens base inner i} (hbase : Derives 7 tokens base) (hindex : Derives 0 inner i) :
    Derives 7 (tokens ++ .symbol "[" :: (inner ++ [.symbol "]"])) (.index base i)
  /-- A comma may follow the last argument. -/
  | call {tokens callee} {args : List (List Token × Formula)} {last : List Token}
    (hcallee : Derives 7 tokens callee) (hargs : ∀ a ∈ args, Derives 0 a.1 a.2)
    (hlast : last = [] ∨ args ≠ [] ∧ last = [.symbol ","]) :
    Derives 7 (tokens ++ .symbol "(" :: (commas (args.map Prod.fst) ++ last ++ [.symbol ")"]))
      (.call callee (args.map Prod.snd))
  | unary {symbol op tokens x} (hop : (symbol, op) ∈ unaryOperators)
    (operand : Derives 6 tokens x) : Derives 6 (.symbol symbol :: tokens) (.unary op x)
  | binary {level symbol op left right x y} (hop : (symbol, op) ∈ binaryOperators level)
    (hleft : Derives level left x) (hright : Derives (level + 1) right y) :
    Derives level (left ++ .symbol symbol :: right) (.binary op x y)
  /-- A level holds all that binds tighter. -/
  | lift {level tokens x} (h : Derives (level + 1) tokens x) : Derives level tokens x

/-- An expression of a level stands at every lower one. -/
theorem Derives.lower {level low : Nat} {tokens : List Token} {x : Formula} (hlow : low ≤ level)
    (h : Derives level tokens x) : Derives low tokens x := by
  induction hlow with
  | refl => exact h
  | step _ ih => exact ih h.lift

/-! ## The reader -/

/-- What was begun and waits for an operand. -/
inductive Frame where
  | left (op : BinaryOp) (operand : Formula)
  | unary (op : UnaryOp)
  | parens
  | index (base : Formula)
  | args (callee : Formula) (before : List Formula)

/-- Completes the operators on top of the stack that bind at least as tight as `strength`. -/
def reduce (strength : Nat) (x : Formula) : List Frame → Formula × List Frame
  | .unary op :: stack => reduce strength (.unary op x) stack
  | .left op y :: stack =>
    if strength ≤ op.precedence then reduce strength (.binary op y x) stack
    else (x, .left op y :: stack)
  | stack => (x, stack)

/-- The operator that a symbol stands for between operands. -/
def binary? (symbol : String) : Option BinaryOp :=
  ([1, 2, 3, 4, 5].flatMap binaryOperators).lookup symbol

/-- The operator that a symbol stands for before an operand. -/
def unary? (symbol : String) : Option UnaryOp := unaryOperators.lookup symbol

/-- Reads on, after the operand `x` or, if there is none, where an operand is due. -/
def read : Option Formula → List Frame → List Token → Option Formula
  | none, stack, .ident name :: tokens => read (some (.ident name)) stack tokens
  | none, stack, .symbol "(" :: tokens => read none (.parens :: stack) tokens
  | none, .args callee before :: stack, .symbol ")" :: tokens =>
    read (some (.call callee before)) stack tokens
  | none, stack, .symbol s :: tokens =>
    match unary? s with
    | some op => read none (.unary op :: stack) tokens
    | none => none
  | some x, stack, .symbol "." :: .ident field :: tokens =>
    read (some (.selector x field)) stack tokens
  | some x, stack, .symbol "[" :: tokens => read none (.index x :: stack) tokens
  | some x, stack, .symbol "(" :: tokens => read none (.args x [] :: stack) tokens
  | some x, stack, .symbol "]" :: tokens =>
    match reduce 0 x stack with
    | (x, .index base :: stack) => read (some (.index base x)) stack tokens
    | _ => none
  | some x, stack, .symbol ")" :: tokens =>
    match reduce 0 x stack with
    | (x, .parens :: stack) => read (some x) stack tokens
    | (x, .args callee before :: stack) =>
      read (some (.call callee (before ++ [x]))) stack tokens
    | _ => none
  | some x, stack, .symbol "," :: tokens =>
    match reduce 0 x stack with
    | (x, .args callee before :: stack) => read none (.args callee (before ++ [x]) :: stack) tokens
    | _ => none
  | some x, stack, .symbol s :: tokens =>
    match binary? s with
    | some op =>
      let (x, stack) := reduce op.precedence x stack
      read none (.left op x :: stack) tokens
    | none => none
  | some x, stack, [] =>
    match reduce 0 x stack with
    | (x, []) => some x
    | _ => none
  | _, _, _ => none

/-- The grammar has the operators as they are written, at the levels of their strengths. -/
theorem mem_binaryOperators {level : Nat} {symbol : String} {op : BinaryOp} :
    (symbol, op) ∈ binaryOperators level ↔ symbol = op.symbol ∧ level = op.precedence := by
  constructor
  · intro h
    have htable : ∀ level < 6, ∀ p ∈ binaryOperators level,
        p.1 = p.2.symbol ∧ level = p.2.precedence := by decide +kernel
    by_cases hlevel : level < 6
    · exact htable level hlevel _ h
    · obtain ⟨k, rfl⟩ := Nat.exists_eq_add_of_le' (Nat.le_of_not_lt hlevel)
      cases h
  · rintro ⟨rfl, rfl⟩
    cases op <;> decide +kernel

/-- A symbol before an operand stands for the operator with this symbol. -/
theorem mem_unaryOperators {symbol : String} {op : UnaryOp} :
    (symbol, op) ∈ unaryOperators ↔ symbol = op.symbol := by
  constructor
  · intro h
    have htable : ∀ p ∈ unaryOperators, p.1 = p.2.symbol := by decide +kernel
    exact htable _ h
  · rintro rfl
    cases op <;> decide +kernel

/-- Where an operand is due, a unary operator goes to the stack. -/
theorem read_unary (op : UnaryOp) (stack : List Frame) (tokens : List Token) :
    read none stack (.symbol op.symbol :: tokens) = read none (.unary op :: stack) tokens := by
  cases op <;> rfl

/-- After an operand, a binary operator first completes what binds at least as tight as it does. -/
theorem read_binary (op : BinaryOp) (x : Formula) (stack : List Frame) (tokens : List Token) :
    read (some x) stack (.symbol op.symbol :: tokens) =
      read none (.left op (reduce op.precedence x stack).1 :: (reduce op.precedence x stack).2)
        tokens := by
  cases op <;> rfl

/-! ## The reader follows derivations -/

/-- An expression of the level on top of the stack does not take what is below it. -/
def Admits (level : Nat) : List Frame → Prop
  | .unary _ :: _ => 6 ≤ level
  | .left op _ :: _ => op.precedence < level
  | _ => True

/-- A stack that admits a level admits the higher ones. -/
theorem Admits.mono {low high : Nat} {stack : List Frame} (h : Admits low stack)
    (hle : low ≤ high) : Admits high stack := by
  match stack with
  | [] | .parens :: _ | .index _ :: _ | .args _ _ :: _ => trivial
  | .unary _ :: _ | .left _ _ :: _ =>
    simp only [Admits] at h ⊢
    omega

/-- Binary operators are weaker than unary ones. -/
theorem precedence_lt_unary (op : BinaryOp) : op.precedence < 6 := by
  cases op <;> decide

/-- An operator that the stack admits completes nothing. -/
theorem reduce_of_admits {op : BinaryOp} {stack : List Frame} (x : Formula)
    (h : Admits op.precedence stack) : reduce op.precedence x stack = (x, stack) := by
  match stack with
  | [] | .parens :: _ | .index _ :: _ | .args _ _ :: _ => rfl
  | .left _ _ :: _ =>
    simp only [Admits] at h
    rw [reduce, if_neg (by omega)]
  | .unary _ :: _ =>
    have := precedence_lt_unary op
    simp only [Admits] at h
    omega

/-- After the tokens the reader has an operand and a stack that come to `x` on the stack of before,
as soon as an operator that is not stronger than the level follows. An operand of the highest level
is complete at once. -/
def Takes (level : Nat) (tokens : List Token) (x : Formula) (stack : List Frame) : Prop :=
  ∃ y above, (∀ rest, read none stack (tokens ++ rest) = read (some y) above rest) ∧
    (∀ strength ≤ level, reduce strength y above = reduce strength x stack) ∧
    (7 ≤ level → y = x ∧ above = stack)

variable {level : Nat} {tokens : List Token} {x : Formula} {stack : List Frame}

/-- An operand that is read at once is taken at any level. -/
theorem Takes.of_read (h : ∀ rest, read none stack (tokens ++ rest) = read (some x) stack rest) :
    Takes level tokens x stack :=
  ⟨x, stack, h, fun _ _ => rfl, fun _ => ⟨rfl, rfl⟩⟩

/-- At the highest level the operand is read at once, with nothing left to complete. -/
theorem Takes.read_eq (h : Takes 7 tokens x stack) (rest : List Token) :
    read none stack (tokens ++ rest) = read (some x) stack rest := by
  obtain ⟨y, above, hread, -, hprimary⟩ := h
  obtain ⟨rfl, rfl⟩ := hprimary (Nat.le_refl _)
  exact hread rest

/-- What is in parentheses is an operand of any level. -/
theorem Takes.parens (h : Takes 0 tokens x (.parens :: stack)) :
    Takes level (.symbol "(" :: (tokens ++ [.symbol ")"])) x stack := by
  obtain ⟨y, above, hread, hreduce, -⟩ := h
  refine .of_read fun rest => ?_
  calc read none stack (.symbol "(" :: (tokens ++ [.symbol ")"]) ++ rest)
      = read none (.parens :: stack) (tokens ++ .symbol ")" :: rest) := by simp [read]
    _ = read (some y) above (.symbol ")" :: rest) := hread _
    _ = read (some x) stack rest := by simp [read, hreduce, reduce]

/-- A selector of an operand of the highest level is an operand. -/
theorem Takes.selector {field : String} (h : Takes 7 tokens x stack) :
    Takes level (tokens ++ [.symbol ".", .ident field]) (.selector x field) stack := by
  refine .of_read fun rest => ?_
  rw [List.append_assoc, h.read_eq]
  simp [read]

/-- An index of an operand of the highest level is an operand. -/
theorem Takes.index {inner : List Token} {i : Formula}
    (h : Takes 7 tokens x stack) (hindex : Takes 0 inner i (.index x :: stack)) :
    Takes level (tokens ++ .symbol "[" :: (inner ++ [.symbol "]"])) (.index x i) stack := by
  obtain ⟨y, above, hread, hreduce, -⟩ := hindex
  refine .of_read fun rest => ?_
  calc read none stack (tokens ++ .symbol "[" :: (inner ++ [.symbol "]"]) ++ rest)
      = read none stack (tokens ++ .symbol "[" :: (inner ++ .symbol "]" :: rest)) := by simp
    _ = read (some x) stack (.symbol "[" :: (inner ++ .symbol "]" :: rest)) := h.read_eq _
    _ = read none (.index x :: stack) (inner ++ .symbol "]" :: rest) := by simp [read]
    _ = read (some y) above (.symbol "]" :: rest) := hread _
    _ = read (some (.index x i)) stack rest := by simp [read, hreduce, reduce]

/-- The last argument completes the call. -/
theorem Takes.argument_close {callee : Formula} {before : List Formula}
    (h : Takes 0 tokens x (.args callee before :: stack)) (rest : List Token) :
    read none (.args callee before :: stack) (tokens ++ .symbol ")" :: rest) =
      read (some (.call callee (before ++ [x]))) stack rest := by
  obtain ⟨y, above, hread, hreduce, -⟩ := h
  rw [hread]
  simp [read, hreduce, reduce]

/-- An argument before a comma goes to the arguments of the call. -/
theorem Takes.argument_comma {callee : Formula} {before : List Formula}
    (h : Takes 0 tokens x (.args callee before :: stack)) (rest : List Token) :
    read none (.args callee before :: stack) (tokens ++ .symbol "," :: rest) =
      read none (.args callee (before ++ [x]) :: stack) rest := by
  obtain ⟨y, above, hread, hreduce, -⟩ := h
  rw [hread]
  simp [read, hreduce, reduce]

/-- The arguments of a call are read up to its closing parenthesis. -/
theorem read_arguments {callee : Formula} {args : List (List Token × Formula)}
    {last : List Token} (before : List Formula)
    (hargs : ∀ a ∈ args, ∀ before, Takes 0 a.1 a.2 (.args callee before :: stack))
    (hlast : last = [] ∨ args ≠ [] ∧ last = [.symbol ","]) (rest : List Token) :
    read none (.args callee before :: stack)
        (commas (args.map Prod.fst) ++ last ++ .symbol ")" :: rest) =
      read (some (.call callee (before ++ args.map Prod.snd))) stack rest := by
  induction args generalizing before with
  | nil =>
    obtain rfl : last = [] := by simpa using hlast
    simp [commas, read]
  | cons a args ih =>
    have ha := hargs a List.mem_cons_self before
    cases args with
    | nil =>
      rcases hlast with rfl | ⟨-, rfl⟩
      · simpa [commas] using ha.argument_close rest
      · simpa [commas, read] using ha.argument_comma (.symbol ")" :: rest)
    | cons b args =>
      have hnext := ih (before ++ [a.2]) (fun a ha => hargs a (List.mem_cons_of_mem _ ha))
        (hlast.imp_right fun h => ⟨List.cons_ne_nil _ _, h.2⟩)
      have hcommas : commas (a.1 :: (b :: args).map Prod.fst) =
          a.1 ++ .symbol "," :: commas ((b :: args).map Prod.fst) := by simp [commas]
      rw [List.map_cons, hcommas]
      simpa [ha.argument_comma] using hnext

/-- A call of an operand of the highest level is an operand, with a comma after its arguments or
without. -/
theorem Takes.call {args : List (List Token × Formula)} {last : List Token}
    (h : Takes 7 tokens x stack)
    (hargs : ∀ a ∈ args, ∀ before, Takes 0 a.1 a.2 (.args x before :: stack))
    (hlast : last = [] ∨ args ≠ [] ∧ last = [.symbol ","]) :
    Takes level (tokens ++ .symbol "(" :: (commas (args.map Prod.fst) ++ last ++ [.symbol ")"]))
      (.call x (args.map Prod.snd)) stack := by
  refine .of_read fun rest => ?_
  have harguments := read_arguments [] hargs hlast rest
  rw [List.append_assoc, h.read_eq]
  simpa [read] using harguments

/-- An operator before an operand of its own level is read as one. -/
theorem Takes.unary {op : UnaryOp} (h : Takes 6 tokens x (.unary op :: stack)) :
    Takes 6 (.symbol op.symbol :: tokens) (.unary op x) stack := by
  obtain ⟨y, above, hread, hreduce, -⟩ := h
  refine ⟨y, above, fun rest => ?_, fun strength hle => ?_, fun hle => absurd hle (by decide)⟩
  · rw [List.cons_append, read_unary, hread]
  · rw [hreduce strength hle, reduce]

/-- Operators group to the left: the right operand is of a higher level than the left one. -/
theorem Takes.binary {op : BinaryOp} {left right : List Token} {y : Formula}
    (hstack : Admits op.precedence stack) (hleft : Takes op.precedence left x stack)
    (hright : Takes (op.precedence + 1) right y (.left op x :: stack)) :
    Takes op.precedence (left ++ .symbol op.symbol :: right) (.binary op x y) stack := by
  obtain ⟨y₁, above₁, hread₁, hreduce₁, -⟩ := hleft
  obtain ⟨y₂, above₂, hread₂, hreduce₂, -⟩ := hright
  have hlt := precedence_lt_unary op
  refine ⟨y₂, above₂, fun rest => ?_, fun strength hle => ?_, fun hle => ?_⟩
  · calc read none stack (left ++ .symbol op.symbol :: right ++ rest)
        = read none stack (left ++ .symbol op.symbol :: (right ++ rest)) := by simp
      _ = read (some y₁) above₁ (.symbol op.symbol :: (right ++ rest)) := hread₁ _
      _ = read none (.left op x :: stack) (right ++ rest) := by
        rw [read_binary, hreduce₁ _ (Nat.le_refl _), reduce_of_admits x hstack]
      _ = read (some y₂) above₂ rest := hread₂ _
  · rw [hreduce₂ strength (by omega), reduce, if_pos hle]
  · omega

/-- An operand of a level is one of all lower levels. -/
theorem Takes.lift (h : Takes (level + 1) tokens x stack) : Takes level tokens x stack := by
  obtain ⟨y, above, hread, hreduce, hprimary⟩ := h
  exact ⟨y, above, hread, fun strength hle => hreduce strength (by omega),
    fun hle => hprimary (by omega)⟩

/-- The reader takes an expression wherever the grammar has one. -/
theorem Derives.takes (h : Derives level tokens x) (hstack : Admits level stack) :
    Takes level tokens x stack := by
  induction h generalizing stack with
  | ident => exact .of_read fun rest => by simp [read]
  | parens _ ih =>
    have hinner := @ih (.parens :: stack) trivial
    exact hinner.parens
  | selector _ ih => exact (ih hstack).selector
  | @index _ base _ _ _ _ ihbase ihindex =>
    have hinner := @ihindex (.index base :: stack) trivial
    exact (ihbase hstack).index hinner
  | @call _ callee _ _ _ _ hlast ihcallee ihargs =>
    have harguments := fun a ha before => @ihargs a ha (.args callee before :: stack) trivial
    exact (ihcallee hstack).call harguments hlast
  | unary hop _ ih =>
    obtain rfl := mem_unaryOperators.mp hop
    exact (ih (Nat.le_refl _)).unary
  | binary hop _ _ ihleft ihright =>
    obtain ⟨rfl, rfl⟩ := mem_binaryOperators.mp hop
    exact .binary hstack (ihleft hstack) (ihright (Nat.lt_succ_self _))
  | lift _ ih => exact (ih (hstack.mono (Nat.le_succ _))).lift

/-- The reader finds the tree of every expression that the grammar derives. -/
theorem Derives.read_eq (h : Derives 0 tokens x) : read none [] tokens = some x := by
  obtain ⟨y, above, hread, hreduce, -⟩ := @Derives.takes 0 tokens x [] h trivial
  have hend := hread []
  rw [List.append_nil] at hend
  simp [hend, read, hreduce, reduce]

/-- Tokens have at most one tree. -/
theorem Derives.unique {y : Formula} (hx : Derives 0 tokens x) (hy : Derives 0 tokens y) :
    x = y :=
  Option.some.inj (hx.read_eq.symm.trans hy.read_eq)

end Formula

end Desugar
