import Desugar.Emit
import Desugar.Proofs.Tree.Lowered

/-!
# What can be written out

Writing a unit fails exactly if it holds something that the base language has no notation for. The
conditions look at one node at a time, a loop together with the statements of its header; so the
theorem for each kind of tree says that its text exists if all its nodes are writable.

- `Node.isWritable` and `Item.isWritable`: the conditions.
- `Emit.isOk_expr` and the theorems beside it: one for each function that writes code.
- `emit_eq_ok_iff`: a unit has a text if and only if all its items are writable.
-/

namespace Desugar

/-! ### Writable trees -/

/-- The constant is no infinite number and no NaN. -/
def Literal.isFinite : Literal → Bool
  | .float value => Decimal.isFinite value.bits
  | _ => true

/-- The return clause is absent, a plain type, or a tuple of plain types. -/
def Ty.isWritable : Option Ty → Bool
  | none => true
  | some (tuple slots) => slots.all isPlain
  | some t => t.isPlain

/-- The node is one of the base language, its numbers are finite, and the header of a loop fits on
a line. -/
def Node.isWritable : Node → Bool
  | .expr (.attempt _ _) | .expr (.template _ _) => false
  | .stmt (.throw _ _) | .stmt (.bind _ _ _) => false
  | .expr (.lit value _) => value.isFinite
  | .expr (.composite ty _ _) | .expr (.ofType ty _) => ty.isPlain
  | .expr (.func params returns _ _) =>
    (params.all fun p => p.ty.isPlain) && Ty.isWritable returns
  | .stmt (.var _ ty _ _) => ty.all Ty.isPlain
  | .stmt (.loop clause _ _) => clause.isInline
  | _ => true

/-- The types of the declaration and all nodes of its code are writable, and no alternative of an
enum carries values. -/
def Item.isWritable (item : Item) : Bool :=
  item.isWithin Node.isWritable && Ty.isWritable item.returns?

namespace Emit

/-! ### Success of a sequence -/

section Success

variable {ε ε' α β : Type}

theorem isOk_iff {x : Except ε α} : x.isOk = true ↔ ∃ a, x = .ok a := by
  cases x with
  | error e => simp [Except.isOk, Except.toBool]
  | ok a => simp [Except.isOk, Except.toBool]

@[simp] theorem isOk_ok (a : α) : (Except.ok a : Except ε α).isOk = true := rfl

@[simp] theorem isOk_error (e : ε) : (Except.error e : Except ε α).isOk = false := rfl

@[simp] theorem isOk_mapError (f : ε → ε') (x : Except ε α) : (x.mapError f).isOk = x.isOk := by
  cases x <;> rfl

theorem ok_bind (a : α) (f : α → Except ε β) : (Except.ok a >>= f) = f a := rfl

/-- A sequence whose rest succeeds or fails whatever the value of its first step. -/
theorem isOk_bind {x : Except ε α} {f : α → Except ε β} {rest : Bool}
    (h : ∀ a, (f a).isOk = rest) : (x >>= f).isOk = (x.isOk && rest) := by
  cases x with
  | error e => rfl
  | ok a => exact h a

/-- A last step that cannot fail. -/
theorem isOk_bind_ok {x : Except ε α} {f : α → β} : (x >>= fun a => .ok (f a)).isOk = x.isOk := by
  rw [isOk_bind fun a => isOk_ok (f a), Bool.and_true]

end Success

/-! ### Types and signatures -/

/-- The plain types are those that can be written. -/
theorem isOk_tyText : ∀ t : Ty, (tyText t).isOk = t.isPlain
  | .named _ => rfl
  | .array element => by rw [tyText, isOk_bind_ok, isOk_tyText element, Ty.isPlain_array]
  | .map key value => by
    rw [tyText, isOk_bind fun _ => isOk_bind_ok, isOk_tyText key, isOk_tyText value,
      Ty.isPlain_map]
  | .pointer inner true => by
    rw [tyText, isOk_bind_ok, isOk_tyText inner, Ty.isPlain_pointer, Bool.true_and]
  | .pointer inner false => (Ty.isPlain_pointer inner false).symm
  | .channel inner direction => by
    have hinner := isOk_tyText inner
    cases direction <;> rw [tyText, isOk_bind_ok, hinner, Ty.isPlain_channel]
  | .option _ => rfl
  | .result _ => rfl
  | .tuple slots => by simp [tyText, Ty.isPlain, Ty.hasTuple]

theorem isOk_ty (t : Ty) (span : Span) : (ty t span).isOk = t.isPlain := by
  rw [ty, isOk_mapError, isOk_tyText]

/-- The types of several values can be written if each of them can. -/
theorem isOk_slotTexts (span : Span) :
    ∀ ts : List Ty, (slotTexts span ts).isOk = ts.all Ty.isPlain
  | [] => rfl
  | t :: ts => by
    rw [slotTexts, isOk_bind fun _ => isOk_bind_ok, isOk_ty, isOk_slotTexts span ts, List.all_cons]

/-- A return clause can be written if it is one of the base language. -/
theorem isOk_returnClause (span : Span) (returns : Option Ty) :
    (returnClause span returns).isOk = Ty.isWritable returns := by
  cases returns with
  | none => rfl
  | some t =>
    cases t with
    | tuple slots =>
      match slots with
      | [] => rfl
      | [t] => simp [returnClause, isOk_bind_ok, isOk_ty, Ty.isWritable]
      | t :: u :: ts => simp only [returnClause, isOk_bind_ok, isOk_slotTexts, Ty.isWritable]
    | _ => simp only [returnClause, isOk_bind_ok, isOk_ty, Ty.isWritable]

theorem isOk_param (p : Param) : (param p).isOk = p.ty.isPlain := by
  rw [param, isOk_bind_ok, isOk_ty]

/-- Parameters can be written if their types can. -/
theorem isOk_params : ∀ ps : List Param, (params ps).isOk = ps.all fun p => p.ty.isPlain
  | [] => rfl
  | p :: ps => by
    rw [params, isOk_bind fun _ => isOk_bind_ok, isOk_param, isOk_params ps, List.all_cons]

/-- A signature is written if its parameters and its return clause are. -/
theorem isOk_signature (ps : List Param) (returns : Option Ty) (span : Span) :
    (signature ps returns span).isOk =
      ((ps.all fun p => p.ty.isPlain) && Ty.isWritable returns) := by
  rw [signature, isOk_bind fun _ => isOk_bind_ok, isOk_params, isOk_returnClause]

/-! ### Code -/

/-- Every constant but an infinite number and NaN is written. -/
theorem isOk_literal (value : Literal) (span : Span) :
    (literal value span).isOk = value.isFinite := by
  cases value with
  | float value =>
    by_cases h : Decimal.isFinite value.bits = true
    · simp [literal, Literal.isFinite, h]
    · simp [literal, Literal.isFinite, h]
  | bool value => cases value <;> rfl
  | _ => rfl

/-- The statement may be written at the position. -/
def Position.allows : Position → Stmt → Bool
  | .line _, _ => true
  | .header _, s => s.isInline

/-- A statement that needs lines of its own is refused in the header of a loop. -/
theorem isOk_lineOnly (position : Position) (span : Span) (text : Nat → Except Fault String)
    {writable : Bool} (h : ∀ indent, (text indent).isOk = writable) {s : Stmt}
    (hs : s.isInline = false) :
    (position.lineOnly span text).isOk = (position.allows s && writable) := by
  cases position with
  | line indent => exact h indent
  | header indent => simp [Position.lineOnly, Position.allows, hs]

mutual
/-- An expression is written if all its nodes are writable, by recursion on the tree. -/
theorem isOk_expr (outer indent : Nat) :
    ∀ e : Expr, (expr outer indent e).isOk = e.nodes.all Node.isWritable
  | .ident _ _ => rfl
  | .lit value span => by
    rw [expr, isOk_literal]
    exact (Bool.and_true _).symm
  | .binary op left right _ => by
    rw [expr, isOk_bind fun _ => isOk_bind_ok, isOk_expr _ _ left, isOk_expr _ _ right,
      ← List.all_append]
    rfl
  | .unary _ operand _ => by
    rw [expr, isOk_bind_ok, isOk_expr _ _ operand]
    rfl
  | .call callee args _ => by
    rw [expr, isOk_bind fun _ => isOk_bind_ok, isOk_expr _ _ callee, isOk_exprs _ args,
      ← List.all_append]
    rfl
  | .selector base _ _ => by
    rw [expr, isOk_bind_ok, isOk_expr _ _ base]
    rfl
  | .index base index _ => by
    rw [expr, isOk_bind fun _ => isOk_bind_ok, isOk_expr _ _ base, isOk_expr _ _ index,
      ← List.all_append]
    rfl
  | .composite t elements span => by
    rw [expr, isOk_bind fun _ => isOk_bind_ok, isOk_elementTexts _ elements, isOk_ty,
      Bool.and_comm]
    rfl
  | .func ps returns body span => by
    rw [expr, isOk_bind fun _ => isOk_bind_ok, isOk_block _ body, isOk_signature, Bool.and_comm]
    rfl
  | .ofType t span => by
    rw [expr, isOk_bind_ok, isOk_ty]
    exact (Bool.and_true _).symm
  | .template _ _ => rfl
  | .attempt _ _ => rfl

theorem isOk_exprs (indent : Nat) :
    ∀ es : List Expr, (exprs indent es).isOk = (Expr.nodesList es).all Node.isWritable
  | [] => rfl
  | e :: rest => by
    rw [exprs, isOk_bind fun _ => isOk_bind_ok, isOk_expr _ _ e, isOk_exprs _ rest,
      ← List.all_append]
    rfl

theorem isOk_elementTexts (indent : Nat) : ∀ elements : List Element,
    (elementTexts indent elements).isOk = (Element.nodesList elements).all Node.isWritable
  | [] => rfl
  | ⟨key, value⟩ :: rest => by
    -- The value is written before its key.
    rw [elementTexts, isOk_bind fun _ => isOk_bind fun _ => isOk_bind_ok, isOk_expr _ _ value,
      isOk_keyText _ key, isOk_elementTexts _ rest, ← Bool.and_assoc,
      Bool.and_comm (value.nodes.all _), ← List.all_append, ← List.all_append]
    rfl

theorem isOk_keyText (indent : Nat) : ∀ key : Option Expr,
    (keyText indent key).isOk = (Expr.nodesOption key).all Node.isWritable
  | none => rfl
  | some key => by
    rw [keyText, isOk_bind_ok, isOk_expr _ _ key]
    rfl

theorem isOk_block (indent : Nat) :
    ∀ b : Block, (block indent b).isOk = b.nodes.all Node.isWritable
  | ⟨stmts, _⟩ => isOk_lines indent stmts

theorem isOk_lines (indent : Nat) :
    ∀ stmts : List Stmt, (lines indent stmts).isOk = (Stmt.nodesList stmts).all Node.isWritable
  | [] => rfl
  | s :: rest => by
    rw [lines, isOk_bind fun _ => isOk_bind_ok, isOk_stmt _ s, isOk_lines _ rest,
      Position.allows, Bool.true_and, ← List.all_append]
    rfl

/-- In a header a statement has to fit on the line as well. -/
theorem isOk_stmt (position : Position) : ∀ s : Stmt,
    (stmt position s).isOk = (position.allows s && s.nodes.all Node.isWritable)
  | .var names none values span => by
    simp only [stmt, ok_bind]
    rw [isOk_bind_ok, isOk_exprs _ values]
    cases position <;> rfl
  | .var names (some t) values span => by
    simp only [stmt, ok_bind]
    rw [isOk_bind fun _ => isOk_bind_ok, isOk_ty, isOk_exprs _ values]
    cases position <;> rfl
  | .assign targets op values _ => by
    rw [stmt, isOk_bind fun _ => isOk_bind_ok, isOk_exprs _ targets, isOk_exprs _ values,
      ← List.all_append]
    cases position <;> rfl
  | .expr value => by
    rw [stmt, isOk_bind_ok, isOk_expr _ _ value]
    cases position <;> rfl
  | .ret values _ => by
    rw [stmt, isOk_bind_ok, isOk_exprs _ values]
    cases position <;> rfl
  | .go call _ => by
    rw [stmt, isOk_bind_ok, isOk_expr _ _ call]
    cases position <;> rfl
  | .defer call _ => by
    rw [stmt, isOk_bind_ok, isOk_expr _ _ call]
    cases position <;> rfl
  | .breakLoop _ => by cases position <;> rfl
  | .continueLoop _ => by cases position <;> rfl
  | .cond ⟨condition, thenBlock, otherwise, span⟩ => by
    rw [stmt]
    refine isOk_lineOnly position span _ (fun indent => ?_) rfl
    rw [isOk_bind fun _ => isOk_bind fun _ => isOk_bind_ok, isOk_expr _ _ condition,
      isOk_block _ thenBlock, isOk_elseText _ otherwise, ← List.all_append, ← List.all_append,
      ← List.append_assoc]
    rfl
  | .loop clause body span => by
    rw [stmt]
    refine isOk_lineOnly position span _ (fun indent => ?_) rfl
    rw [isOk_bind fun _ => isOk_bind_ok, isOk_clauseText _ clause, isOk_block _ body,
      Bool.and_assoc, ← List.all_append]
    rfl
  | .block ⟨stmts, span⟩ => by
    rw [stmt]
    refine isOk_lineOnly position span _ (fun indent => ?_) rfl
    rw [isOk_bind_ok, isOk_lines _ stmts]
    rfl
  | .throw _ span => by
    rw [stmt]
    exact isOk_lineOnly position span _ (fun _ => rfl) rfl
  | .bind _ _ span => by
    rw [stmt]
    exact isOk_lineOnly position span _ (fun _ => rfl) rfl

theorem isOk_elseText (indent : Nat) : ∀ otherwise : Else,
    (elseText indent otherwise).isOk = otherwise.nodes.all Node.isWritable
  | .none => rfl
  | .block body => by
    rw [elseText, isOk_bind_ok, isOk_block _ body]
    rfl
  | .elseIf ⟨condition, thenBlock, otherwise, _⟩ => by
    rw [elseText, isOk_bind fun _ => isOk_bind fun _ => isOk_bind_ok, isOk_expr _ _ condition,
      isOk_block _ thenBlock, isOk_elseText _ otherwise, ← List.all_append, ← List.all_append,
      ← List.append_assoc]
    rfl

theorem isOk_clauseText (indent : Nat) : ∀ clause : Clause,
    (clauseText indent clause).isOk = (clause.isInline && clause.nodes.all Node.isWritable)
  | .infinite => rfl
  | .condition test => by
    rw [clauseText, isOk_bind_ok, isOk_expr _ _ test]
    rfl
  | .three first condition post => by
    rw [clauseText, isOk_bind fun _ => isOk_bind fun _ => isOk_bind_ok, isOk_headerText _ _ first,
      isOk_conditionText _ condition, isOk_headerText _ _ post]
    simp only [Clause.isInline, Clause.nodes, List.all_append]
    ac_rfl
  | .range key value define source => by
    rw [clauseText, isOk_bind_ok, isOk_expr _ _ source]
    rfl

theorem isOk_headerText (indent : Nat) (separator : String) : ∀ s : Option Stmt,
    (headerText indent separator s).isOk =
      (s.all Stmt.isInline && (Stmt.nodesOption s).all Node.isWritable)
  | none => rfl
  | some s => by
    rw [headerText, isOk_bind_ok, isOk_stmt _ s]
    rfl

theorem isOk_conditionText (indent : Nat) : ∀ condition : Option Expr,
    (conditionText indent condition).isOk = (Expr.nodesOption condition).all Node.isWritable
  | none => rfl
  | some test => by
    rw [conditionText, isOk_bind_ok, isOk_expr _ _ test]
    rfl
end

/-! ### Items -/

/-- A function is written if its types and the nodes of its body are writable. -/
theorem isOk_function (f : Function) : (function f).isOk = (Item.func f).isWritable := by
  obtain ⟨name, receiver, ps, returns, body, span⟩ := f
  cases receiver with
  | none =>
    simp only [function, ok_bind]
    rw [isOk_bind fun _ => isOk_bind_ok, isOk_signature, isOk_block]
    exact Bool.and_right_comm _ _ _
  | some r =>
    simp only [function, ok_bind]
    rw [isOk_bind fun _ => isOk_bind fun _ => isOk_bind_ok, isOk_param, isOk_signature, isOk_block,
      ← Bool.and_assoc, ← Bool.and_assoc]
    exact Bool.and_right_comm _ _ _

/-- Fields are written if their types are, whatever the width that they are aligned to. -/
theorem isOk_fields (width : Nat) :
    ∀ ps : List Param, (fields width ps).isOk = ps.all fun p => p.ty.isPlain
  | [] => rfl
  | p :: ps => by
    rw [fields, isOk_bind fun _ => isOk_bind_ok, isOk_ty, isOk_fields width ps, List.all_cons]

/-- A struct is written if the types of its fields are plain. -/
theorem isOk_struct (decl : Struct) : (struct decl).isOk = (Item.struct decl).isWritable := by
  have hwritable : (Item.struct decl).isWritable = decl.fields.all fun p => p.ty.isPlain :=
    Bool.and_true _
  rw [hwritable]
  unfold struct
  split
  · rename_i hempty
    rw [List.isEmpty_iff.mp hempty]
    rfl
  · rw [isOk_bind_ok, isOk_fields]

/-- An enum is written if no alternative carries values. -/
theorem isOk_enum (decl : Enum) : (enum decl).isOk = (Item.enum decl).isWritable := by
  have hwritable : (Item.enum decl).isWritable = decl.variants.all fun v => v.fields.isEmpty :=
    Bool.and_true _
  rw [hwritable]
  unfold enum
  split
  · rename_i variant hfind
    have hfields : variant.fields.isEmpty = false := by simpa using List.find?_some hfind
    have hmem : variant ∈ decl.variants := List.mem_of_find?_eq_some hfind
    exact (List.all_eq_false.mpr ⟨variant, hmem, by simp [hfields]⟩).symm
  · rename_i hfind
    refine (List.all_eq_true.mpr fun variant hvariant => ?_).symm
    simpa using List.find?_eq_none.mp hfind variant hvariant

/-- A constant is written if its type and the nodes of its value are writable. -/
theorem isOk_const (decl : Constant) : (const decl).isOk = (Item.const decl).isWritable := by
  obtain ⟨name, t, value, span⟩ := decl
  have hwritable : (Item.const ⟨name, t, value, span⟩).isWritable =
      (t.all Ty.isPlain && value.nodes.all Node.isWritable) := Bool.and_true _
  rw [hwritable]
  cases t with
  | none =>
    simp only [const, ok_bind]
    rw [isOk_bind_ok, isOk_expr]
    rfl
  | some t =>
    simp only [const, ok_bind]
    rw [isOk_bind fun _ => isOk_bind_ok, isOk_expr, isOk_ty, Bool.and_comm]
    rfl

/-- An item is written if it is writable, whatever its kind. -/
theorem isOk_item (i : Item) : (item i).isOk = i.isWritable := by
  cases i with
  | func f => exact isOk_function f
  | struct decl => exact isOk_struct decl
  | enum decl => exact isOk_enum decl
  | const decl => exact isOk_const decl
  | support stem => rfl

/-- Items are written if each of them is writable. -/
theorem isOk_items : ∀ is : List Item, (items is).isOk = is.all Item.isWritable
  | [] => rfl
  | i :: rest => by
    rw [items, isOk_bind fun _ => isOk_bind_ok, isOk_item, isOk_items rest, List.all_cons]

/-- A unit is written if each of its items is writable. -/
theorem isOk_emit (program : Program) :
    (emit program).isOk = program.items.all Item.isWritable := by
  rw [emit, isOk_bind_ok, isOk_items]

end Emit

/-- A unit has a text if and only if every item is writable: it has no `try`, `throw`, template or
go-binding, its types in value position are plain and its return clauses are absent, plain or tuples
of plain types, no alternative of an enum carries values, all numbers are finite, and the statements
of loop headers fit on a line, everywhere and at any depth. -/
theorem emit_eq_ok_iff (program : Program) :
    (∃ text, emit program = .ok text) ↔ ∀ item ∈ program.items, item.isWritable = true := by
  rw [← Emit.isOk_iff, Emit.isOk_emit, List.all_eq_true]

end Desugar
