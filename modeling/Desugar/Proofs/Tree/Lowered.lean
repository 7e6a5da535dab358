import Desugar.Proofs.Tree.Sites
import Desugar.Proofs.Ty.Lowering
import Desugar.Path

/-!
# Lowered trees

What is left of the extended language after each pass, as a property of the single nodes of a
tree. Every property implies the one before it, so a pass has to establish its own and to keep
those of the passes that ran earlier.

- `Node.isTyped`: the types in value position are plain.
- `Node.isPropagated`: besides, there is no `try` and no `throw`, and the return clause of a
  function literal is one of the base language.
- `Node.isLowered`: besides, there is no template.
- `Item.isLowered`: the declaration and all its nodes are in the base language.
- `Node.IsLocal`: a property that passes can carry through, as it looks at one node at a time and
  holds of all nodes that lowering inserts.
- `Node.Trait`: such a property that may depend on the names which are known.

Inserted code has no construct of the extended language, so each of its short forms is good as soon
as its parts are.
-/

namespace Desugar

/-- All nodes of a list are good. -/
def Within (good : Node → Bool) (nodes : List Node) : Prop := ∀ node ∈ nodes, good node = true

section Within

variable {good : Node → Bool} {node : Node} {nodes rest : List Node}

theorem within_nil : Within good [] := by simp [Within]

theorem within_cons : Within good (node :: nodes) ↔ good node = true ∧ Within good nodes :=
  List.forall_mem_cons

theorem within_append :
    Within good (nodes ++ rest) ↔ Within good nodes ∧ Within good rest :=
  List.forall_mem_append

theorem within_leaf : Within good [node] ↔ good node = true := List.forall_mem_singleton

/-- The nodes of a tree with two parts. -/
theorem within_pair :
    Within good (node :: (nodes ++ rest)) ↔
      good node = true ∧ Within good nodes ∧ Within good rest := by
  rw [within_cons, within_append]

/-- Good nodes are good in any weaker sense. -/
theorem Within.mono {weak : Node → Bool} (h : Within good nodes)
    (himp : ∀ node, good node = true → weak node = true) : Within weak nodes :=
  fun node hnode => himp node (h node hnode)

/-- Statements are good if each of them is. -/
theorem within_nodesList {stmts : List Stmt} :
    Within good (Stmt.nodesList stmts) ↔ ∀ stmt ∈ stmts, Within good stmt.nodes := by
  induction stmts with
  | nil => simp [Stmt.nodesList, within_nil]
  | cons stmt rest ih => simp [Stmt.nodesList, within_append, ih]

/-- Expressions are good if each of them is. -/
theorem within_exprs {es : List Expr} :
    Within good (Expr.nodesList es) ↔ ∀ e ∈ es, Within good e.nodes := by
  induction es with
  | nil => simp [Expr.nodesList, within_nil]
  | cons e rest ih => simp [Expr.nodesList, within_append, ih]

theorem within_stmts_append {before after : List Stmt} :
    Within good (Stmt.nodesList (before ++ after)) ↔
      Within good (Stmt.nodesList before) ∧ Within good (Stmt.nodesList after) := by
  simp [within_nodesList, or_imp, forall_and]

theorem within_exprs_append {before after : List Expr} :
    Within good (Expr.nodesList (before ++ after)) ↔
      Within good (Expr.nodesList before) ∧ Within good (Expr.nodesList after) := by
  simp [within_exprs, or_imp, forall_and]

theorem within_stmt {stmt : Stmt} :
    Within good (Stmt.nodesList [stmt]) ↔ Within good stmt.nodes := by
  simp [within_nodesList]

theorem within_expr {e : Expr} : Within good (Expr.nodesList [e]) ↔ Within good e.nodes := by
  simp [within_exprs]

/-- A conditional is good if its node, its condition and its body are. -/
theorem within_onlyIf {condition : Expr} {body : List Stmt} :
    Within good (Stmt.onlyIf condition body).nodes ↔
      good (.stmt (.onlyIf condition body)) = true ∧ Within good condition.nodes ∧
        Within good (Stmt.nodesList body) := by
  have hnodes : (Stmt.onlyIf condition body).nodes =
      .stmt (.onlyIf condition body) :: (condition.nodes ++ Stmt.nodesList body ++ []) := rfl
  rw [hnodes, List.append_nil, within_pair]

theorem within_getLast? {code : List Stmt} (h : Within good (Stmt.nodesList code)) :
    Within good (Stmt.nodesOption code.getLast?) := by
  cases hlast : code.getLast? with
  | none => exact within_nil
  | some stmt => exact within_nodesList.mp h stmt (List.mem_of_getLast? hlast)

theorem within_dropLast {code : List Stmt} (h : Within good (Stmt.nodesList code)) :
    Within good (Stmt.nodesList code.dropLast) :=
  within_nodesList.mpr fun stmt hstmt =>
    within_nodesList.mp h stmt (List.dropLast_subset code hstmt)

end Within

namespace Ty

/-- A return clause of the base language: none, a plain type, or a tuple of at least two. -/
def isClause : Option Ty → Bool
  | none => true
  | some (tuple slots) => decide (2 ≤ slots.length) && slots.all isPlain
  | some t => t.isPlain

/-- Plain slots make a return clause of the base language, however many there are. -/
theorem isClause_clauseOfSlots {ts : List Ty} (h : ∀ t ∈ ts, t.isPlain = true) :
    isClause (clauseOfSlots ts) = true := by
  match ts, h with
  | [], _ => rfl
  | [t], h =>
    have ht : t.isPlain = true := h t (by simp)
    -- A tuple is not plain, so a single value is its own clause.
    cases t with
    | tuple slots => simp [isPlain, hasTuple] at ht
    | _ => exact ht
  | t :: u :: ts, h =>
    show (decide (2 ≤ (t :: u :: ts).length) && (t :: u :: ts).all isPlain) = true
    simp only [Bool.and_eq_true, decide_eq_true_eq, List.all_eq_true]
    exact ⟨by simp, h⟩

end Ty

/-- A clause of the base language consists of its values, and none of them is lowered further. -/
theorem ReturnShape.ofClause_of_isClause (policy : OptionPolicy) {returns : Option Ty}
    (h : Ty.isClause returns = true) :
    ∃ ts, (∀ t ∈ ts, t.isPlain = true) ∧ Ty.clauseOfSlots ts = returns ∧
      ofClause policy returns = .ok { declared := ts, values := ts } := by
  cases returns with
  | none => exact ⟨[], by simp, rfl, rfl⟩
  | some t =>
    cases t with
    | tuple slots =>
      simp only [Ty.isClause, Bool.and_eq_true, decide_eq_true_eq, List.all_eq_true] at h
      refine ⟨slots, h.2, ?_, ?_⟩
      · match slots, h.1 with
        | _ :: _ :: _, _ => rfl
      · simp [ofClause, split, Ty.slots, Ty.lowerList_of_isPlain policy h.2, bind, Except.bind]
    | result inner => cases h
    | _ =>
      refine ⟨[_], List.forall_mem_singleton.mpr h, rfl, ?_⟩
      simp [ofClause, split, Ty.slots, Ty.lowerList, Ty.lower_of_isPlain policy h, bind,
        Except.bind]

/-- The shape of a clause of the base language: it has no error, and it is the clause again. -/
theorem ReturnShape.eq_of_isClause {policy : OptionPolicy} {returns : Option Ty}
    {shape : ReturnShape} (h : Ty.isClause returns = true)
    (hshape : ofClause policy returns = .ok shape) :
    shape.isResult = false ∧ shape.clause = returns ∧ ∀ t ∈ shape.declared, t.isPlain = true := by
  obtain ⟨ts, hplain, hclause, hts⟩ := ofClause_of_isClause policy h
  rw [hts] at hshape
  cases hshape
  refine ⟨rfl, ?_, hplain⟩
  show Ty.clauseOfSlots (ts ++ []) = returns
  rw [List.append_nil, hclause]

theorem ReturnShape.isClause_clause {shape : ReturnShape}
    (h : ∀ t ∈ shape.values, t.isPlain = true) : Ty.isClause shape.clause = true :=
  Ty.isClause_clauseOfSlots (all_isPlain_slots h)

namespace Node

/-- The types in value position of the node are plain. -/
def isTyped : Node → Bool
  | .expr (.composite ty _ _) => ty.isPlain
  | .expr (.ofType ty _) => ty.isPlain
  | .expr (.func params _ _ _) => params.all fun p => p.ty.isPlain
  | .stmt (.var _ ty _ _) => ty.all Ty.isPlain
  | _ => true

/-- The types of the node are plain, and it is no `try`, no `throw`, and no function literal with
an extended return clause. -/
def isPropagated : Node → Bool
  | .expr (.attempt _ _) => false
  | .stmt (.throw _ _) => false
  | .expr (.func params returns _ _) => (params.all fun p => p.ty.isPlain) && Ty.isClause returns
  | node => node.isTyped

/-- The node is one of the base language, go-bindings apart. -/
def isLowered : Node → Bool
  | .expr (.template _ _) => false
  | node => node.isPropagated

/-- The node is one of those that lowering inserts, which are neither loops nor go-bindings nor
floating-point constants. -/
def isInsertable : Node → Bool
  | .expr (.lit (.float _) _) => false
  | .stmt (.loop _ _ _) | .stmt (.bind _ _ _) => false
  | node => node.isLowered

/-- The node is a function literal. -/
def isFunc : Node → Bool
  | .expr e => e.isFunc
  | .stmt _ => false

/-- Error propagation puts something else in place of the node. -/
def isRewritten : Node → Bool
  | .expr (.attempt _ _) | .expr (.func _ _ _ _) => true
  | .stmt (.throw _ _) | .stmt (.loop _ _ _) => true
  | _ => false

/-- The node is a template. -/
def isTemplate : Node → Bool
  | .expr (.template _ _) => true
  | _ => false

theorem isLowered_eq (node : Node) : node.isLowered = (node.isPropagated && !node.isTemplate) := by
  match node with
  | .stmt _ => exact (Bool.and_true _).symm
  | .expr e =>
    cases e with
    | template segments span => rfl
    | _ => exact (Bool.and_true _).symm

/-- Once errors are propagated, the types are still plain. -/
theorem isTyped_of_isPropagated {node : Node} (h : node.isPropagated = true) :
    node.isTyped = true := by
  unfold isPropagated at h
  split at h
  · cases h
  · cases h
  · exact (Bool.and_eq_true_iff.mp h).1
  · exact h

/-- In the base language no error is left to propagate. -/
theorem isPropagated_of_isLowered {node : Node} (h : node.isLowered = true) :
    node.isPropagated = true := by
  unfold isLowered at h
  split at h
  · cases h
  · exact h

/-- What is inserted is in the base language. -/
theorem isLowered_of_isInsertable {node : Node} (h : node.isInsertable = true) :
    node.isLowered = true := by
  unfold isInsertable at h
  split at h
  · cases h
  · cases h
  · cases h
  · exact h

end Node

/-! ### Loop headers -/

/-- The statement fits on one line, so that it may stand in the header of a loop. -/
def Stmt.isInline : Stmt → Bool
  | .var _ _ _ _ | .assign _ _ _ _ | .expr _ | .ret _ _ | .go _ _ | .defer _ _ => true
  | .breakLoop _ | .continueLoop _ => true
  | .cond _ | .loop _ _ _ | .throw _ _ | .bind _ _ _ | .block _ => false

/-- The first and the last statement of a loop header fit on its line. -/
def Clause.isInline : Clause → Bool
  | .three first _ post => first.all Stmt.isInline && post.all Stmt.isInline
  | .infinite | .condition _ | .range _ _ _ _ => true

/-- The statement fits on one line or, as a `throw`, becomes one that does. -/
def Stmt.isSimple : Stmt → Bool
  | .throw _ _ => true
  | stmt => stmt.isInline

/-- The statement is a `try`. -/
def Stmt.isAttempt : Stmt → Bool
  | .expr value => value.isAttempt
  | _ => false

/-- The statements of the header are simple. -/
def Clause.isSimple : Clause → Bool
  | .three first _ post => first.all Stmt.isSimple && post.all Stmt.isSimple
  | .infinite | .condition _ | .range _ _ _ _ => true

/-- The header begins with a `try`. -/
def Clause.isAttempt : Clause → Bool
  | .three first _ _ => first.any Stmt.isAttempt
  | .infinite | .condition _ | .range _ _ _ _ => false

/-- The header fits on a line once it is lowered. -/
def Clause.isReady (clause : Clause) : Bool := clause.isSimple && !clause.isAttempt

/-! ### Properties of a node apart from its parts -/

/-- The expression without its parts. -/
def Expr.shell : Expr → Expr
  | .call _ _ span => .call .nil [] span
  | .template _ span => .template [] span
  | .attempt _ span => .attempt .nil span
  | .binary op _ _ span => .binary op .nil .nil span
  | .unary op _ span => .unary op .nil span
  | .selector _ field span => .selector .nil field span
  | .index _ _ span => .index .nil .nil span
  | .composite ty _ span => .composite ty [] span
  | .func params returns _ span => .func params returns (.inserted []) span
  | e => e

/-- The statement without its parts and, if it is a loop, without its header. -/
def Stmt.form : Stmt → Stmt
  | .var names ty _ span => .var names ty [] span
  | .assign _ op _ span => .assign [] op [] span
  | .expr _ => .expr .nil
  | .ret _ span => .ret [] span
  | .cond _ => .onlyIf .nil []
  | .loop _ _ span => .loop .infinite (.inserted []) span
  | .throw _ span => .throw .nil span
  | .bind names _ span => .bind names .nil span
  | .go _ span => .go .nil span
  | .defer _ span => .defer .nil span
  | .block _ => .block (.inserted [])
  | stmt => stmt

/-- The header of a loop without its expressions. Of its statements the forms are left. -/
def Clause.form : Clause → Clause
  | .three first _ post => .three (first.map Stmt.form) none (post.map Stmt.form)
  | _ => .infinite

/-- The variables that the header declares by itself. -/
def Clause.bound : Clause → List String
  | .range key value _ _ => (key.toList ++ value.toList).map (·.name)
  | _ => []

theorem Node.names_loop (clause : Clause) (body : Block) (span : Span) :
    (Node.stmt (.loop clause body span)).names = clause.bound := by
  cases clause <;> rfl

/-- The statement without its parts. A loop is told apart by what stands in its header. -/
def Stmt.shell : Stmt → Stmt
  | .loop clause _ span => .loop clause.form (.inserted []) span
  | stmt => stmt.form

namespace Node

/-- The node without its parts. -/
def shell : Node → Node
  | .expr e => .expr e.shell
  | .stmt s => .stmt s.shell

/-- The property looks at the node alone, not at its parts, and inserted nodes have it. -/
structure IsLocal (good : Node → Bool) : Prop where
  shell : ∀ node, good node = good node.shell
  inserted : ∀ node, node.isInsertable = true → good node = true

/-- A local property passes between nodes that differ in their parts only. -/
theorem IsLocal.of_shell {good : Node → Bool} (hgood : IsLocal good) {node node' : Node}
    (h : good node = true) (hshell : node.shell = node'.shell) : good node' = true := by
  rw [hgood.shell, ← hshell, ← hgood.shell]
  exact h

/-- Whether types are plain can be told node by node. -/
theorem isLocal_isTyped : IsLocal isTyped where
  shell
    | .expr e => by cases e <;> rfl
    | .stmt s => by cases s <;> rfl
  inserted _ h := isTyped_of_isPropagated (isPropagated_of_isLowered (isLowered_of_isInsertable h))

/-- Whether errors are propagated can be told node by node. -/
theorem isLocal_isPropagated : IsLocal isPropagated where
  shell
    | .expr e => by cases e <;> rfl
    | .stmt s => by cases s <;> rfl
  inserted _ h := isPropagated_of_isLowered (isLowered_of_isInsertable h)

end Node

namespace Item

/-- The types of the declaration are plain, no alternative of an enum carries values, and all
nodes of the code are good. -/
def isWithin (good : Node → Bool) : Item → Bool
  | func decl =>
    (decl.receiver.toList ++ decl.params).all (fun p => p.ty.isPlain) && decl.body.nodes.all good
  | struct decl => decl.fields.all fun p => p.ty.isPlain
  | enum decl => decl.variants.all fun variant => variant.fields.isEmpty
  | const decl => decl.ty.all Ty.isPlain && decl.value.nodes.all good
  | support _ => true

/-- The nodes of the code of an item. -/
def nodes : Item → List Node
  | func decl => decl.body.nodes
  | const decl => decl.value.nodes
  | struct _ | enum _ | support _ => []

/-- The return clause of a function. -/
def returns? : Item → Option Ty
  | func decl => decl.returns
  | _ => none

/-- The item is one of the base language, go-bindings apart. -/
def isLowered (item : Item) : Bool := item.isWithin Node.isLowered && Ty.isClause item.returns?

/-- A function is good if the types of its parameters are plain and the nodes of its body are good.
-/
theorem isWithin_func {good : Node → Bool} {decl : Function} :
    (func decl).isWithin good = true ↔
      (∀ p ∈ decl.receiver.toList ++ decl.params, p.ty.isPlain = true) ∧
        Within good decl.body.nodes := by
  simp only [isWithin, Bool.and_eq_true, List.all_eq_true, Within]

/-- A constant is good if its type is plain and the nodes of its value are good. -/
theorem isWithin_const {good : Node → Bool} {decl : Constant} :
    (const decl).isWithin good = true ↔
      (∀ t ∈ decl.ty, t.isPlain = true) ∧ Within good decl.value.nodes := by
  simp only [isWithin, Bool.and_eq_true, List.all_eq_true, Within, Option.all_eq_true,
    Option.mem_def]

/-- An item is good if its declaration is plain and its nodes are good. -/
theorem isWithin_iff {good : Node → Bool} {item : Item} :
    item.isWithin good = true ↔ item.isWithin (fun _ => true) = true ∧ Within good item.nodes := by
  cases item with
  | func decl => simp [isWithin, nodes, Within]
  | const decl => simp [isWithin, nodes, Within]
  | struct decl => simp [isWithin, nodes, within_nil]
  | enum decl => simp [isWithin, nodes, within_nil]
  | support stem => simp [isWithin, nodes, within_nil]

/-- Good items are good in any weaker sense. -/
theorem isWithin_mono {good weak : Node → Bool} (himp : ∀ node, good node = true → weak node = true)
    {item : Item} (h : item.isWithin good = true) : item.isWithin weak = true := by
  cases item with
  | func decl =>
    obtain ⟨hparams, hbody⟩ := isWithin_func.mp h
    exact isWithin_func.mpr ⟨hparams, hbody.mono himp⟩
  | const decl =>
    obtain ⟨hty, hvalue⟩ := isWithin_const.mp h
    exact isWithin_const.mpr ⟨hty, hvalue.mono himp⟩
  | struct decl => exact h
  | enum decl => exact h
  | support stem => rfl

end Item

/-! ### Expressions without function literals

The walk that stays outside function literals reaches every node of such an expression. -/

mutual
/-- Without function literals, the nodes are the expressions that a visit meets. -/
theorem Expr.nodes_eq_visit : ∀ e : Expr, Within (fun node => !node.isFunc) e.nodes →
    e.nodes = (e.visit Expr.outsideFuncs).map .expr
  | .ident _ _, _ => rfl
  | .lit _ _, _ => rfl
  | .ofType _ _, _ => rfl
  | .call callee args _, h => by
    obtain ⟨-, hcallee, hargs⟩ := within_pair.mp h
    simp [Expr.nodes, Expr.visit, visited, Expr.outsideFuncs, Expr.isFunc,
      Expr.nodes_eq_visit callee hcallee, Expr.nodesList_eq_visitList args hargs]
  | .template segments _, h => by
    obtain ⟨-, hsegments⟩ := within_cons.mp h
    simp [Expr.nodes, Expr.visit, visited, Expr.outsideFuncs, Expr.isFunc,
      Segment.nodesList_eq_visitList segments hsegments]
  | .attempt operand _, h => by
    obtain ⟨-, hoperand⟩ := within_cons.mp h
    simp [Expr.nodes, Expr.visit, visited, Expr.outsideFuncs, Expr.isFunc,
      Expr.nodes_eq_visit operand hoperand]
  | .binary _ left right _, h => by
    obtain ⟨-, hleft, hright⟩ := within_pair.mp h
    simp [Expr.nodes, Expr.visit, visited, Expr.outsideFuncs, Expr.isFunc,
      Expr.nodes_eq_visit left hleft, Expr.nodes_eq_visit right hright]
  | .unary _ operand _, h => by
    obtain ⟨-, hoperand⟩ := within_cons.mp h
    simp [Expr.nodes, Expr.visit, visited, Expr.outsideFuncs, Expr.isFunc,
      Expr.nodes_eq_visit operand hoperand]
  | .selector base _ _, h => by
    obtain ⟨-, hbase⟩ := within_cons.mp h
    simp [Expr.nodes, Expr.visit, visited, Expr.outsideFuncs, Expr.isFunc,
      Expr.nodes_eq_visit base hbase]
  | .index base index _, h => by
    obtain ⟨-, hbase, hindex⟩ := within_pair.mp h
    simp [Expr.nodes, Expr.visit, visited, Expr.outsideFuncs, Expr.isFunc,
      Expr.nodes_eq_visit base hbase, Expr.nodes_eq_visit index hindex]
  | .composite _ elements _, h => by
    obtain ⟨-, helements⟩ := within_cons.mp h
    simp [Expr.nodes, Expr.visit, visited, Expr.outsideFuncs, Expr.isFunc,
      Element.nodesList_eq_visitList elements helements]
  | .func _ _ _ _, h => by
    obtain ⟨hfunc, -⟩ := within_cons.mp h
    cases hfunc

theorem Expr.nodesList_eq_visitList :
    ∀ es : List Expr, Within (fun node => !node.isFunc) (Expr.nodesList es) →
      Expr.nodesList es = (Expr.visitList Expr.outsideFuncs es).map .expr
  | [], _ => rfl
  | e :: rest, h => by
    obtain ⟨he, hrest⟩ := within_append.mp h
    simp [Expr.nodesList, Expr.visitList, Expr.nodes_eq_visit e he,
      Expr.nodesList_eq_visitList rest hrest]

theorem Expr.nodesOption_eq_visitOption :
    ∀ e : Option Expr, Within (fun node => !node.isFunc) (Expr.nodesOption e) →
      Expr.nodesOption e = (Expr.visitOption Expr.outsideFuncs e).map .expr
  | none, _ => rfl
  | some e, h => Expr.nodes_eq_visit e h

theorem Segment.nodesList_eq_visitList :
    ∀ segments : List Segment, Within (fun node => !node.isFunc) (Segment.nodesList segments) →
      Segment.nodesList segments = (Segment.visitList Expr.outsideFuncs segments).map .expr
  | [], _ => rfl
  | .text _ :: rest, h => Segment.nodesList_eq_visitList rest h
  | .embed value _ _ :: rest, h => by
    obtain ⟨hvalue, hrest⟩ := within_append.mp h
    simp [Segment.nodesList, Segment.visitList, Expr.nodes_eq_visit value hvalue,
      Segment.nodesList_eq_visitList rest hrest]

theorem Element.nodesList_eq_visitList :
    ∀ elements : List Element, Within (fun node => !node.isFunc) (Element.nodesList elements) →
      Element.nodesList elements = (Element.visitList Expr.outsideFuncs elements).map .expr
  | [], _ => rfl
  | ⟨key, value⟩ :: rest, h => by
    obtain ⟨h, hrest⟩ := within_append.mp h
    obtain ⟨hkey, hvalue⟩ := within_append.mp h
    simp [Element.nodesList, Element.visitList, Expr.nodesOption_eq_visitOption key hkey,
      Expr.nodes_eq_visit value hvalue, Element.nodesList_eq_visitList rest hrest]
end

/-- Without function literals, a walk outside them finds every `try`. -/
theorem Expr.exists_of_mem_nodes {e : Expr} (hfunc : Within (fun node => !node.isFunc) e.nodes)
    (h : e.containsAttempt = false) {node : Node} (hnode : node ∈ e.nodes) :
    ∃ x : Expr, node = .expr x ∧ x.isAttempt = false ∧ x.isFunc = false := by
  have hnodes := Expr.nodes_eq_visit e hfunc
  -- Without function literals there are no statements either, so the node is an expression.
  obtain ⟨x, hx, rfl⟩ := List.mem_map.mp (hnodes ▸ hnode)
  refine ⟨x, rfl, ?_, ?_⟩
  · simpa using List.any_eq_false.mp h x hx
  · simpa [Node.isFunc] using hfunc _ hnode

/-! ### Code without `try`

If no node is a `try`, then no walk finds one. -/

theorem Node.mem_deep_self (node : Node) : node ∈ node.deep := by
  unfold Node.deep
  split
  · exact List.mem_cons_self
  · exact List.mem_singleton_self _

/-- A node at a site is one of the nodes at or inside the sites. -/
theorem Site.mem_deep {sites : List Site} {node : Node} (h : node ∈ sites.map Site.node) :
    node ∈ Site.deep sites := by
  obtain ⟨site, hsite, rfl⟩ := List.mem_map.mp h
  exact List.mem_flatMap.mpr ⟨site, hsite, site.node.mem_deep_self⟩

/-- Once errors are propagated, no expression is a `try`. -/
theorem any_isAttempt_eq_false {nodes : List Node} (h : Within Node.isPropagated nodes)
    {es : List Expr} (hes : ∀ x ∈ es, .expr x ∈ nodes) : es.any Expr.isAttempt = false := by
  refine List.any_eq_false.mpr fun x hx => ?_
  have hnode := h _ (hes x hx)
  cases x with
  | attempt operand span => cases hnode
  | _ => exact Bool.false_ne_true

/-- Once errors are propagated, no `try` is found in an expression. -/
theorem Expr.containsAttempt_eq_false {e : Expr} (h : Within Node.isPropagated e.nodes) :
    e.containsAttempt = false := by
  refine any_isAttempt_eq_false h fun x hx => ?_
  rw [Expr.nodes_eq]
  exact Site.mem_deep ((Expr.mem_visit_sites x e).mp hx)

/-- Once errors are propagated, no `try` is found in a statement. -/
theorem Stmt.containsAttempt_eq_false {stmt : Stmt} (h : Within Node.isPropagated stmt.nodes) :
    stmt.containsAttempt = false := by
  refine any_isAttempt_eq_false h fun x hx => ?_
  rw [Stmt.nodes_eq]
  exact Site.mem_deep ((Stmt.mem_visit_sites x stmt).mp hx)

theorem any_containsAttempt_eq_false {es : List Expr}
    (h : Within Node.isPropagated (Expr.nodesList es)) :
    es.any Expr.containsAttempt = false := by
  refine List.any_eq_false.mpr fun e he => ?_
  rw [Expr.containsAttempt_eq_false (within_exprs.mp h e he)]
  exact Bool.false_ne_true

theorem any_elements_containsAttempt_eq_false {elements : List Element}
    (h : Within Node.isPropagated (Element.nodesList elements)) :
    elements.any Element.containsAttempt = false := by
  induction elements with
  | nil => rfl
  | cons element rest ih =>
    obtain ⟨key, value⟩ := element
    obtain ⟨h, hrest⟩ := within_append.mp h
    obtain ⟨hkey, hvalue⟩ := within_append.mp h
    have hkey : (key.map Expr.containsAttempt).getD false = false := by
      cases key with
      | none => rfl
      | some key => exact Expr.containsAttempt_eq_false hkey
    rw [List.any_cons, ih hrest, Element.containsAttempt, hkey,
      Expr.containsAttempt_eq_false hvalue]
    rfl

theorem any_segments_containsAttempt_eq_false {segments : List Segment}
    (h : Within Node.isPropagated (Segment.nodesList segments)) :
    segments.any Segment.containsAttempt = false := by
  induction segments with
  | nil => rfl
  | cons segment rest ih =>
    cases segment with
    | text value => exact ih h
    | embed value verb span =>
      obtain ⟨hvalue, hrest⟩ := within_append.mp h
      rw [List.any_cons, ih hrest, Segment.containsAttempt, Expr.containsAttempt_eq_false hvalue]
      rfl

theorem Expr.isAttempt_eq_false {e : Expr} (h : Within Node.isPropagated e.nodes) :
    e.isAttempt = false := by
  have hnode := h _ e.mem_nodes_self
  cases e with
  | attempt operand span => cases hnode
  | _ => rfl

/-- A statement in which no `try` is found is none. -/
theorem Stmt.isAttempt_of_containsAttempt {stmt : Stmt} (h : stmt.containsAttempt = false) :
    stmt.isAttempt = false := by
  cases stmt with
  | expr value =>
    cases value with
    | attempt operand span => cases h
    | _ => rfl
  | _ => rfl

/-! ### Inserted code -/

/-- The name that a function path starts with. -/
def Path.head (path : String) : String := String.ofList ((Path.parts '.' path.toList).headD [])

/-- The reference to a path is a name with one member after the other. -/
theorem within_reference {good : Node → Bool} {path : String}
    (hmember : ∀ base field, good (.expr (Expr.member base field)) = true)
    (hhead : Within good (Expr.name (Path.head path)).nodes) :
    Within good (Path.reference path).nodes := by
  -- Every further part of the path is one more member around the same base.
  have hfold : ∀ (parts : List (List Char)) (base : Expr), Within good base.nodes →
      Within good
        (parts.foldl (fun base part => base.member (String.ofList part)) base).nodes := by
    intro parts
    induction parts with
    | nil => exact fun _ h => h
    | cons part rest ih => exact fun base h => ih _ (within_cons.mpr ⟨hmember _ _, h⟩)
  unfold Path.head at hhead
  unfold Path.reference
  split
  case h_1 hparts =>
    rw [hparts] at hhead
    exact hhead
  case h_2 hparts =>
    rw [hparts] at hhead
    exact hfold _ _ hhead

theorem Node.IsLocal.reference {good : Node → Bool} (hgood : IsLocal good) {path : String} :
    Within good (Path.reference path).nodes :=
  within_reference (fun _ _ => hgood.inserted _ rfl) (within_leaf.mpr (hgood.inserted _ rfl))

/-! ### Properties that depend on known names -/

/-- The names that the node has by itself are among the given ones. -/
def Node.isNamedIn (names : List String) (node : Node) : Bool :=
  node.names.all fun x => decide (x ∈ names)

theorem Node.isNamedIn_congr {names : List String} {node node' : Node}
    (h : node.names = node'.names) : node.isNamedIn names = node'.isNamedIn names := by
  rw [isNamedIn, isNamedIn, h]

/-- A property of nodes that a pass can establish while it makes up names. It looks at the node
alone, and inserted nodes have it if their names are known or among those that the pass inserts as
they are. -/
structure Node.Trait (fixed : List String) where
  /-- The node is good as soon as these names are known. -/
  good : List String → Node → Bool
  grow : ∀ {known later node}, known ⊆ later → good known node = true → good later node = true
  shell : ∀ {known node node'}, good known node = true → node.shell = node'.shell →
    node.names = node'.names → good known node' = true
  inserted : ∀ {known node}, node.isInsertable = true →
    node.isNamedIn (known ++ fixed) = true → good known node = true
  /-- The names of a good node may be used again. -/
  reused : ∀ {known node x}, good known node = true → x ∈ node.names →
    good known (.expr (.name x)) = true

/-- A local property does not depend on names. -/
def Node.IsLocal.trait {good : Node → Bool} (hgood : IsLocal good) (fixed : List String) :
    Trait fixed where
  good _ := good
  grow _ h := h
  shell h hshell _ := hgood.of_shell h hshell
  inserted h _ := hgood.inserted _ h
  reused _ _ := hgood.inserted _ rfl

/-- All names are known or fixed. -/
def Node.Trait.named (fixed : List String) : Trait fixed where
  good known := isNamedIn (known ++ fixed)
  grow hgrow h := by
    simp only [isNamedIn, List.all_eq_true, decide_eq_true_eq, List.mem_append] at h ⊢
    exact fun x hx => (h x hx).imp_left fun hx => hgrow hx
  shell h _ hnames := (isNamedIn_congr hnames).symm.trans h
  inserted _ h := h
  reused h hx := List.all_eq_true.mpr fun _ hy =>
    List.mem_singleton.mp hy ▸ List.all_eq_true.mp h _ hx

theorem Node.Trait.within_named {fixed known : List String} {nodes : List Node} :
    Within ((named fixed).good known) nodes ↔
      ∀ node ∈ nodes, ∀ x ∈ node.names, x ∈ known ∨ x ∈ fixed := by
  simp [Within, named, isNamedIn]

/-- Nodes have no names but their own. -/
theorem Within.named_self {fixed : List String} {nodes : List Node} :
    Within ((Node.Trait.named fixed).good (nodes.flatMap Node.names)) nodes :=
  Node.Trait.within_named.mpr fun node hnode _ hx =>
    .inl (List.mem_flatMap.mpr ⟨node, hnode, hx⟩)

theorem Within.grow {fixed known later : List String} {T : Node.Trait fixed} {nodes : List Node}
    (h : Within (T.good known) nodes) (hlater : known ⊆ later) : Within (T.good later) nodes :=
  fun node hnode => T.grow hlater (h node hnode)

namespace Node.Trait

variable {fixed known : List String} (T : Trait fixed) {node : Node} {nodes rest : List Node}
variable {x : String} {condition value : Expr} {targets : List String} {values : List Expr}
  {body : List Stmt}

theorem name (h : x ∈ known ∨ x ∈ fixed) : Within (T.good known) (Expr.name x).nodes :=
  within_leaf.mpr (T.inserted rfl (by simpa [isNamedIn, Node.names, Expr.name] using h))

/-- Names are good if they are known or fixed. -/
theorem names (h : ∀ x ∈ targets, x ∈ known ∨ x ∈ fixed) :
    Within (T.good known) (Expr.nodesList (targets.map Expr.name)) := by
  rw [within_exprs]
  intro e he
  obtain ⟨x, hx, rfl⟩ := List.mem_map.mp he
  exact T.name (h x hx)

/-- A good node may get other parts. -/
theorem kept {node' : Node} {later : List String} (h : T.good known node = true)
    (hshell : node.shell = node'.shell) (hnames : node.names = node'.names)
    (hlater : known ⊆ later) : T.good later node' = true :=
  T.grow hlater (T.shell h hshell hnames)

/-- A node without names of its own may be inserted anywhere. -/
theorem plain (h : node.isInsertable = true) (hnames : node.names = []) :
    T.good known node = true :=
  T.inserted h (by rw [isNamedIn, hnames]; rfl)

/-- An inserted node is good. -/
theorem leaf (h : node.isInsertable = true) (hnames : node.names = []) :
    Within (T.good known) [node] :=
  within_leaf.mpr (T.plain h hnames)

/-- An inserted node with good parts is good. -/
theorem cons (h : node.isInsertable = true) (hnames : node.names = [])
    (hnodes : Within (T.good known) nodes) : Within (T.good known) (node :: nodes) :=
  within_cons.mpr ⟨T.plain h hnames, hnodes⟩

theorem pair (h : node.isInsertable = true) (hnames : node.names = [])
    (hnodes : Within (T.good known) nodes) (hrest : Within (T.good known) rest) :
    Within (T.good known) (node :: (nodes ++ rest)) :=
  within_pair.mpr ⟨T.plain h hnames, hnodes, hrest⟩

/-- An inserted definition is good if its targets and values are. -/
theorem define (htargets : Within (T.good known) (Expr.nodesList (targets.map Expr.name)))
    (hvalues : Within (T.good known) (Expr.nodesList values)) :
    Within (T.good known) (Stmt.define targets values).nodes :=
  T.pair rfl rfl htargets hvalues

/-- The definition of a single name. -/
theorem defineOne (hx : Within (T.good known) (Expr.name x).nodes)
    (hvalue : Within (T.good known) value.nodes) :
    Within (T.good known) (Stmt.define [x] [value]).nodes :=
  T.define (within_expr.mpr hx) (within_expr.mpr hvalue)

/-- An inserted conditional of good parts is good. -/
theorem onlyIf (hcondition : Within (T.good known) condition.nodes)
    (hbody : Within (T.good known) (Stmt.nodesList body)) :
    Within (T.good known) (Stmt.onlyIf condition body).nodes :=
  within_onlyIf.mpr ⟨T.plain rfl rfl, hcondition, hbody⟩

theorem isNotNil (hx : Within (T.good known) (Expr.name x).nodes) :
    Within (T.good known) (Expr.isNotNil x).nodes :=
  T.pair rfl rfl hx (T.leaf rfl rfl)

/-- A path is found by the name that it starts with. -/
theorem reference {path : String} (h : Path.head path ∈ fixed) :
    Within (T.good known) (Path.reference path).nodes :=
  within_reference (fun _ _ => T.plain rfl rfl) (T.name (.inr h))

/-- The zero value of a type has only types that are names, and no name but that of the function
`new`. -/
theorem zero (hnew : "new" ∈ fixed) (isStruct : String → Bool) (t : Ty) :
    Within (T.good known) (t.zero isStruct).nodes := by
  unfold Ty.zero
  split
  · exact T.leaf rfl rfl
  · exact T.leaf rfl rfl
  · repeat' split
    · exact T.leaf rfl rfl
    · exact T.leaf rfl rfl
    · exact T.cons rfl rfl within_nil
    · refine T.cons rfl rfl (T.pair rfl rfl (T.name (.inr hnew)) (within_expr.mpr ?_))
      exact T.leaf rfl rfl
  · exact T.leaf rfl rfl

end Node.Trait

end Desugar
