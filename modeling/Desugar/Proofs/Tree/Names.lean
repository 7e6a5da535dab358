import Mathlib.Order.CompletePartialOrder
import Mathlib.Order.ConditionallyCompleteLattice.Basic
import Desugar.Proofs.Tree.Survey
import Desugar.Tree.Names

/-!
# The names that a function is known by

`Function.names` is put together from two walks: one over the statements, for the names that they
declare, and one over the expressions, for the names that they mention. The second one goes
everywhere. The first one goes into the blocks of statements, but neither into function literals nor
into the statements of loop headers.

- `Function.mem_names_iff`: which names are collected. Of the names that statements declare, it is
  those of the steps of the body (`Block.steps`).
- `nameSurvey`: the survey that gathers the collected names, see `Block.survey_names`.
- `Function.mem_names_mapTypes`: lowering types leaves the names as they are.
-/

namespace Desugar

/-- The names that the expressions among the nodes have. -/
def Node.mentioned (nodes : List Node) : Set String :=
  {x | ∃ e, .expr e ∈ nodes ∧ x ∈ (Node.expr e).names}

/-- The names that some statements declare, unless they are in a loop header. -/
def Stmt.declaredIn (header : Bool) (steps : List Stmt) : Set String :=
  {x | header = false ∧ ∃ step ∈ steps, x ∈ (Node.stmt step).names}

section Parts

variable (nodes nodes' : List Node) (header : Bool) (steps steps' : List Stmt)

@[simp] theorem Node.mentioned_nil : Node.mentioned [] = ∅ := by simp [Node.mentioned]

@[simp] theorem Node.mentioned_append :
    Node.mentioned (nodes ++ nodes') = Node.mentioned nodes ∪ Node.mentioned nodes' := by
  ext x
  simp only [Node.mentioned, List.mem_append, Set.mem_union, Set.mem_ofPred_eq, or_and_right,
    exists_or]

@[simp] theorem Node.mentioned_expr (e : Expr) :
    Node.mentioned (.expr e :: nodes) = {x | x ∈ (Node.expr e).names} ∪ Node.mentioned nodes := by
  ext x
  simp [Node.mentioned, or_and_right, exists_or]

@[simp] theorem Node.mentioned_stmt (stmt : Stmt) :
    Node.mentioned (.stmt stmt :: nodes) = Node.mentioned nodes := by
  ext x
  simp [Node.mentioned]

@[simp] theorem Stmt.declaredIn_nil : Stmt.declaredIn header [] = ∅ := by simp [Stmt.declaredIn]

@[simp] theorem Stmt.declaredIn_append :
    Stmt.declaredIn header (steps ++ steps') =
      Stmt.declaredIn header steps ∪ Stmt.declaredIn header steps' := by
  ext x
  simp only [Stmt.declaredIn, List.mem_append, Set.mem_union, Set.mem_ofPred_eq, or_and_right,
    exists_or, and_or_left]

@[simp] theorem Stmt.declaredIn_cons (step : Stmt) :
    Stmt.declaredIn header (step :: steps) =
      {x | header = false ∧ x ∈ (Node.stmt step).names} ∪ Stmt.declaredIn header steps := by
  ext x
  simp [Stmt.declaredIn, and_or_left]

end Parts

/-! ### Collected names -/

/-- What a block mentions is what its expressions mention. -/
theorem Block.mem_mentions_iff {block : Block} {x : String} :
    x ∈ block.mentions ↔ x ∈ Node.mentioned block.nodes := by
  have hown : ∀ e : Expr, e.ownNames = (Node.expr e).names := by
    intro e
    cases e <;> rfl
  simp only [Block.mentions, List.mem_flatMap, Block.mem_visit, hown, Node.mentioned,
    Set.mem_ofPred_eq]

mutual
/-- The collected names of a block are what its steps declare and what its expressions mention. -/
theorem Block.mem_names_iff {x : String} : ∀ block : Block,
    x ∈ block.names ↔ x ∈ Stmt.declaredIn false block.steps ∨ x ∈ Node.mentioned block.nodes
  | ⟨stmts, span⟩ => by
    rw [Block.names, List.mem_append, Block.mem_mentions_iff]
    exact Stmt.mem_declaredList_iff stmts

theorem Stmt.mem_declaredList_iff {x : String} : ∀ stmts : List Stmt,
    (x ∈ Stmt.declaredList stmts ∨ x ∈ Node.mentioned (Stmt.nodesList stmts)) ↔
      x ∈ Stmt.declaredIn false (Stmt.stepsList stmts) ∨ x ∈ Node.mentioned (Stmt.nodesList stmts)
  | [] => by simp [Stmt.declaredList, Stmt.stepsList]
  | stmt :: rest => by
    have hstmt := Stmt.mem_declared_iff (x := x) stmt
    have hrest := Stmt.mem_declaredList_iff (x := x) rest
    simp only [Stmt.declaredList, Stmt.stepsList, Stmt.nodesList, List.mem_append,
      Node.mentioned_append, Stmt.declaredIn_append, Set.mem_union]
    grind

/-- The names of nested blocks count for declared ones, but they are mentioned all the same. -/
theorem Stmt.mem_declared_iff {x : String} : ∀ stmt : Stmt,
    (x ∈ stmt.declared ∨ x ∈ Node.mentioned stmt.nodes) ↔
      x ∈ Stmt.declaredIn false stmt.steps ∨ x ∈ Node.mentioned stmt.nodes
  | .var names ty values span => by simp [Stmt.declared, Stmt.steps, Node.names]
  | .bind names call span => by simp [Stmt.declared, Stmt.steps, Node.names]
  | .cond branch => by
    have hbranch := If.mem_names_iff (x := x) branch
    simpa [Stmt.declared, Stmt.steps, Stmt.nodes, Node.names] using hbranch
  | .loop clause body span => by
    have hbody := Block.mem_names_iff (x := x) body
    have hrange : x ∈ clause.rangeNames ↔ x ∈ (Node.stmt (.loop clause body span)).names := by
      cases clause <;> rfl
    simp only [Stmt.declared, Stmt.steps, Stmt.nodes, List.mem_append, Stmt.declaredIn_cons,
      Node.mentioned_stmt, Node.mentioned_append, Set.mem_union, Set.mem_ofPred_eq, true_and]
    grind
  | .block body => by
    have hbody := Block.mem_names_iff (x := x) body
    simp only [Stmt.declared, Stmt.steps, Stmt.nodes, Stmt.declaredIn_cons, Node.mentioned_stmt,
      Set.mem_union, Set.mem_ofPred_eq, Node.names, List.not_mem_nil, and_false, false_or]
    grind
  | .assign .. | .expr _ | .ret .. | .throw .. | .go .. | .defer .. | .breakLoop _
  | .continueLoop _ => by simp [Stmt.declared, Stmt.steps, Node.names]

theorem If.mem_names_iff {x : String} : ∀ branch : If,
    (x ∈ branch.names ∨ x ∈ Node.mentioned branch.nodes) ↔
      x ∈ Stmt.declaredIn false branch.steps ∨ x ∈ Node.mentioned branch.nodes
  | ⟨condition, thenBlock, otherwise, _⟩ => by
    have hthen := Block.mem_names_iff (x := x) thenBlock
    have hotherwise := Else.mem_names_iff (x := x) otherwise
    simp only [If.names, If.steps, If.nodes, List.mem_append, Node.mentioned_append,
      Stmt.declaredIn_append, Set.mem_union]
    grind

theorem Else.mem_names_iff {x : String} : ∀ otherwise : Else,
    (x ∈ otherwise.names ∨ x ∈ Node.mentioned otherwise.nodes) ↔
      x ∈ Stmt.declaredIn false otherwise.steps ∨ x ∈ Node.mentioned otherwise.nodes
  | .none => by simp [Else.names, Else.steps]
  | .block body => by
    have hbody := Block.mem_names_iff (x := x) body
    simp only [Else.names, Else.steps, Else.nodes]
    grind
  | .elseIf branch => If.mem_names_iff branch
end

/-- A name is collected if it is that of the receiver or of a parameter, if an expression anywhere
in the body mentions it, or if a step of the body declares it. -/
theorem Function.mem_names_iff {f : Function} {x : String} :
    x ∈ f.names ↔ (∃ param ∈ f.params, param.name = x) ∨ (∃ r ∈ f.receiver, r.name = x) ∨
      x ∈ Stmt.declaredIn false f.body.steps ∨ x ∈ Node.mentioned f.body.nodes := by
  simp [Function.names, Block.mem_names_iff]

mutual
/-- The steps of a block are among its nodes. -/
theorem Block.mem_nodes_of_mem_steps {step : Stmt} : ∀ block : Block, step ∈ block.steps →
    .stmt step ∈ block.nodes
  | ⟨stmts, _⟩, h => Stmt.mem_nodesList_of_mem_steps stmts h

theorem Stmt.mem_nodesList_of_mem_steps {step : Stmt} : ∀ stmts : List Stmt,
    step ∈ Stmt.stepsList stmts → .stmt step ∈ Stmt.nodesList stmts
  | [], h => by cases h
  | stmt :: rest, h => by
    rcases List.mem_append.mp h with h | h
    · exact List.mem_append_left _ (Stmt.mem_nodes_of_mem_steps stmt h)
    · exact List.mem_append_right _ (Stmt.mem_nodesList_of_mem_steps rest h)

theorem Stmt.mem_nodes_of_mem_steps {step : Stmt} : ∀ stmt : Stmt, step ∈ stmt.steps →
    .stmt step ∈ stmt.nodes
  | .cond branch, h => by
    rcases List.mem_cons.mp h with rfl | h
    · exact List.mem_cons_self
    · exact List.mem_cons_of_mem _ (If.mem_nodes_of_mem_steps branch h)
  | .loop clause body _, h => by
    rcases List.mem_cons.mp h with rfl | h
    · exact List.mem_cons_self
    · have hbody := Block.mem_nodes_of_mem_steps body h
      exact List.mem_cons_of_mem _ (List.mem_append_right _ hbody)
  | .block body, h => by
    rcases List.mem_cons.mp h with rfl | h
    · exact List.mem_cons_self
    · exact List.mem_cons_of_mem _ (Block.mem_nodes_of_mem_steps body h)
  | .var .., h | .assign .., h | .expr _, h | .ret .., h | .throw .., h | .bind .., h | .go .., h
  | .defer .., h | .breakLoop _, h | .continueLoop _, h => by
    obtain rfl := List.mem_singleton.mp h
    exact List.mem_cons_self

theorem If.mem_nodes_of_mem_steps {step : Stmt} : ∀ branch : If, step ∈ branch.steps →
    .stmt step ∈ branch.nodes
  | ⟨condition, thenBlock, otherwise, _⟩, h => by
    rcases List.mem_append.mp h with h | h
    · have hthen := Block.mem_nodes_of_mem_steps thenBlock h
      exact List.mem_append_left _ (List.mem_append_right _ hthen)
    · exact List.mem_append_right _ (Else.mem_nodes_of_mem_steps otherwise h)

theorem Else.mem_nodes_of_mem_steps {step : Stmt} : ∀ otherwise : Else, step ∈ otherwise.steps →
    .stmt step ∈ otherwise.nodes
  | .none, h => by cases h
  | .block body, h => Block.mem_nodes_of_mem_steps body h
  | .elseIf branch, h => If.mem_nodes_of_mem_steps branch h
end

/-! ### The survey of names -/

/-- Gathers the names that expressions mention and, outside loop headers and function literals,
those that statements declare. -/
def nameSurvey : Survey (Set String) where
  name x := {x}
  declare header _ names := {x | header = false ∧ x ∈ names.map (·.name)}
  stray := ∅
  func params body := {x | x ∈ params.map (·.name)} ∪ body
  literal := true
  declare_header _ _ _ := by
    rintro x ⟨⟨⟩, -⟩
  func_mono _ _ _ h := Set.union_subset_union_right _ h
  func_mapType _ params _ := by simp [Param.mapType]
  name_le_func _ _ _ h := Set.subset_union_of_subset_right h _

/-- In what counts as a loop header nothing is declared. -/
theorem Stmt.declaredIn_true (steps : List Stmt) : Stmt.declaredIn true steps = ∅ := by
  ext x
  simp [Stmt.declaredIn]

mutual
/-- What is gathered in a tree is what it mentions and, outside of loop headers and function
literals, declares. -/
theorem Expr.survey_names : ∀ e : Expr, nameSurvey.expr e = Node.mentioned e.nodes
  | .ident x _ => by
    ext y
    show y = x ↔ _
    simp [Expr.nodes, Node.names]
  | .lit _ _ | .ofType _ _ => by simp [Survey.expr, Expr.nodes, Node.names]
  | .call callee args _ => by
    simp [Expr.nodes, Node.names, callee.survey_names, Expr.survey_namesList args]
  | .template segments _ => by
    have htemplate : nameSurvey.template = ∅ := rfl
    simp [Survey.expr, htemplate, Expr.nodes, Node.names, Segment.survey_names segments]
  | .attempt operand _ => by simp [Survey.expr, Expr.nodes, Node.names, operand.survey_names]
  | .binary _ left right _ => by
    simp [Expr.nodes, Node.names, left.survey_names, right.survey_names]
  | .unary _ operand _ => by simp [Survey.expr, Expr.nodes, Node.names, operand.survey_names]
  | .selector base _ _ => by simp [Survey.expr, Expr.nodes, Node.names, base.survey_names]
  | .index base index _ => by
    simp [Expr.nodes, Node.names, base.survey_names, index.survey_names]
  | .composite _ elements _ => by
    simp [Survey.expr, Expr.nodes, Node.names, Element.survey_names elements]
  | .func params returns body span => by
    have hbody : nameSurvey.block true body = Node.mentioned body.nodes := by
      rw [body.survey_names, Stmt.declaredIn_true, Set.empty_union]
    rw [Expr.nodes, Node.mentioned_expr, ← hbody]
    rfl

theorem Expr.survey_namesList : ∀ es : List Expr,
    nameSurvey.exprs es = Node.mentioned (Expr.nodesList es)
  | [] => by simp [Expr.nodesList]
  | e :: rest => by simp [Expr.nodesList, e.survey_names, Expr.survey_namesList rest]

theorem Expr.survey_namesOption : ∀ e : Option Expr,
    nameSurvey.exprOption e = Node.mentioned (Expr.nodesOption e)
  | none => by simp [Survey.exprOption, Expr.nodesOption]
  | some e => e.survey_names

theorem Segment.survey_names : ∀ segments : List Segment,
    nameSurvey.segments segments = Node.mentioned (Segment.nodesList segments)
  | [] => by simp [Survey.segments, Segment.nodesList]
  | .text _ :: rest => Segment.survey_names rest
  | .embed value _ _ :: rest => by
    simp [Segment.nodesList, value.survey_names, Segment.survey_names rest]

theorem Element.survey_names : ∀ elements : List Element,
    nameSurvey.elements elements = Node.mentioned (Element.nodesList elements)
  | [] => by simp [Survey.elements, Element.nodesList]
  | ⟨key, value⟩ :: rest => by
    simp [Element.nodesList, Expr.survey_namesOption key, value.survey_names,
      Element.survey_names rest, Set.union_assoc]

/-- What is gathered in a block is what its steps declare and what its expressions mention. -/
theorem Block.survey_names {header : Bool} : ∀ block : Block,
    nameSurvey.block header block =
      Stmt.declaredIn header block.steps ∪ Node.mentioned block.nodes
  | ⟨stmts, _⟩ => Stmt.survey_namesList stmts

theorem Stmt.survey_namesList {header : Bool} : ∀ stmts : List Stmt,
    nameSurvey.stmts header stmts =
      Stmt.declaredIn header (Stmt.stepsList stmts) ∪ Node.mentioned (Stmt.nodesList stmts)
  | [] => by simp [Stmt.stepsList, Stmt.nodesList]
  | stmt :: rest => by
    simp only [Survey.stmts_cons, Stmt.stepsList, Stmt.nodesList, stmt.survey_names,
      Stmt.survey_namesList rest, Stmt.declaredIn_append, Node.mentioned_append, Set.sup_eq_union]
    ac_rfl

theorem Stmt.survey_names {header : Bool} : ∀ stmt : Stmt,
    nameSurvey.stmt header stmt =
      Stmt.declaredIn header stmt.steps ∪ Node.mentioned stmt.nodes
  | .var names ty values span => by
    have hsteps : (Stmt.var names ty values span).steps = [.var names ty values span] := rfl
    rw [Survey.stmt_var, Expr.survey_namesList values, Stmt.nodes, Node.mentioned_stmt, hsteps,
      Stmt.declaredIn_cons, Stmt.declaredIn_nil, Set.union_empty]
    rfl
  | .bind names call span => by
    have hsteps : (Stmt.bind names call span).steps = [.bind names call span] := rfl
    rw [Survey.stmt_bind, call.survey_names, Stmt.nodes, Node.mentioned_stmt, hsteps,
      Stmt.declaredIn_cons, Stmt.declaredIn_nil, Set.union_empty]
    rfl
  | .assign targets op values span => by
    simp [Stmt.steps, Stmt.nodes, Node.names, Expr.survey_namesList]
  | .expr value => by simp [Survey.stmt, Stmt.steps, Stmt.nodes, Node.names, value.survey_names]
  | .ret values _ => by
    simp [Survey.stmt, Stmt.steps, Stmt.nodes, Node.names, Expr.survey_namesList values]
  | .throw value span => by
    rw [Survey.stmt_throw_of_settled rfl, value.survey_names]
    simp [Stmt.steps, Stmt.nodes, Node.names]
  | .go call _ => by simp [Survey.stmt, Stmt.steps, Stmt.nodes, Node.names, call.survey_names]
  | .defer call _ => by simp [Survey.stmt, Stmt.steps, Stmt.nodes, Node.names, call.survey_names]
  | .breakLoop _ | .continueLoop _ => by simp [Survey.stmt, Stmt.steps, Stmt.nodes, Node.names]
  | .cond branch => by
    simp [Survey.stmt, Stmt.steps, Stmt.nodes, Node.names, branch.survey_names]
  | .loop clause body span => by
    have hrange : {x | header = false ∧ x ∈ clause.rangeNames} =
        {x | header = false ∧ x ∈ (Node.stmt (.loop clause body span)).names} := by
      cases clause <;> rfl
    simp only [Survey.stmt_loop, clause.survey_names, body.survey_names, hrange, Stmt.steps,
      Stmt.nodes, Stmt.declaredIn_cons, Node.mentioned_stmt, Node.mentioned_append,
      Set.sup_eq_union]
    ac_rfl
  | .block body => by
    simp [Survey.stmt, Stmt.steps, Stmt.nodes, Node.names, body.survey_names]

theorem Stmt.survey_namesHeader : ∀ stmt : Option Stmt,
    nameSurvey.headerStmt stmt = Node.mentioned (Stmt.nodesOption stmt)
  | none => by simp [Survey.headerStmt, Stmt.nodesOption]
  | some stmt => by
    have hstray : (if stmt.isBind then nameSurvey.stray else ⊥) = ⊥ := by split <;> rfl
    rw [Survey.headerStmt_some, hstray, bot_sup_eq, stmt.survey_names, Stmt.declaredIn_true,
      Set.empty_union, Stmt.nodesOption]

theorem If.survey_names {header : Bool} : ∀ branch : If,
    nameSurvey.branch header branch =
      Stmt.declaredIn header branch.steps ∪ Node.mentioned branch.nodes
  | ⟨condition, thenBlock, otherwise, _⟩ => by
    simp only [Survey.branch_mk, If.steps, If.nodes, condition.survey_names, thenBlock.survey_names,
      otherwise.survey_names, Stmt.declaredIn_append, Node.mentioned_append, Set.sup_eq_union]
    ac_rfl

theorem Else.survey_names {header : Bool} : ∀ otherwise : Else,
    nameSurvey.otherwise header otherwise =
      Stmt.declaredIn header otherwise.steps ∪ Node.mentioned otherwise.nodes
  | .none => by simp [Survey.otherwise, Else.steps, Else.nodes]
  | .block body => body.survey_names
  | .elseIf branch => branch.survey_names

theorem Clause.survey_names {header : Bool} : ∀ clause : Clause,
    nameSurvey.clause header clause =
      {x | header = false ∧ x ∈ clause.rangeNames} ∪ Node.mentioned clause.nodes
  | .infinite => by simp [Survey.clause, Clause.rangeNames, Clause.nodes]
  | .condition test => by simp [Survey.clause, Clause.rangeNames, Clause.nodes, test.survey_names]
  | .three first condition post => by
    simp [Clause.rangeNames, Clause.nodes, Stmt.survey_namesHeader first,
      Expr.survey_namesOption condition, Stmt.survey_namesHeader post, Set.union_assoc]
  | .range key value _ source => by
    rw [Survey.clause_range, source.survey_names]
    rfl
end

/-- Outside headers and function literals, what is gathered in a block is its collected names. -/
theorem Block.mem_survey_iff {block : Block} {x : String} :
    x ∈ nameSurvey.block false block ↔ x ∈ block.names := by
  rw [block.survey_names, Set.mem_union, Block.mem_names_iff]

/-- References to names gather the names. -/
theorem mem_survey_names_iff {xs : List String} {x : String} :
    x ∈ nameSurvey.names xs ↔ x ∈ xs := by
  induction xs with
  | nil => simp
  | cons y rest ih =>
    have hmem : x ∈ nameSurvey.names (y :: rest) ↔ x = y ∨ x ∈ nameSurvey.names rest := Iff.rfl
    rw [hmem, ih, List.mem_cons]

/-! ### Types -/

/-- A rewriting of types keeps the names of a node. -/
theorem Node.names_mapTypes (g : Ty → Ty) (node : Node) : (node.mapTypes g).names = node.names := by
  cases node with
  | expr e =>
    cases e with
    | func params returns body span =>
      simp [Node.mapTypes, Expr.mapTypes, Node.names, Param.mapType]
    | _ => rfl
  | stmt stmt =>
    cases stmt with
    | loop clause body span => cases clause <;> rfl
    | _ => rfl

/-- A rewriting of types keeps what is mentioned. -/
theorem Node.mentioned_mapTypes (g : Ty → Ty) (nodes : List Node) :
    Node.mentioned (nodes.map (Node.mapTypes g)) = Node.mentioned nodes := by
  induction nodes with
  | nil => rfl
  | cons node rest ih =>
    have hnames := node.names_mapTypes g
    cases node with
    | expr e =>
      rw [List.map_cons, Node.mapTypes, Node.mentioned_expr, Node.mentioned_expr, ih, ← hnames,
        Node.mapTypes]
    | stmt stmt => rw [List.map_cons, Node.mapTypes, Node.mentioned_stmt, Node.mentioned_stmt, ih]

/-- A rewriting of types keeps what is declared. -/
theorem Stmt.declaredIn_mapTypes (g : Ty → Ty) (header : Bool) (steps : List Stmt) :
    Stmt.declaredIn header (steps.map (Stmt.mapTypes g)) = Stmt.declaredIn header steps := by
  have hnames : ∀ step : Stmt, (Node.stmt (step.mapTypes g)).names = (Node.stmt step).names :=
    fun step => Node.names_mapTypes g (.stmt step)
  ext x
  simp [Stmt.declaredIn, hnames]

/-- The names of a function do not depend on types. -/
theorem Function.mem_names_mapTypes {g : Ty → Ty} {f f' : Function}
    (h : (Item.func f).mapTypes g = .func f') {x : String} : x ∈ f'.names ↔ x ∈ f.names := by
  cases h
  rw [Function.mem_names_iff, Function.mem_names_iff, Block.nodes_mapTypes, Block.steps_mapTypes,
    Node.mentioned_mapTypes, Stmt.declaredIn_mapTypes]
  simp [Param.mapType]

end Desugar
