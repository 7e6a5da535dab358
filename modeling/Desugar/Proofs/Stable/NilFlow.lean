import Desugar.NilFlow
import Desugar.Proofs.Signature
import Desugar.Proofs.Tree.Lowered

/-!
# Nothing flows into a plain type

No plain type is a pointer that is never nil. So a function whose types are plain, in a unit whose
parameters have plain types, has no place where a nil could do harm, and the check finds nothing.

- `LocalTypes.isPlain_ofFunction`: the types known of local names are plain.
- `NilFlow.checkFunction_eq_nil`: the check of a function.
-/

namespace Desugar

/-! ### The types of local names -/

namespace LocalTypes

/-- All known types are plain. -/
def IsPlain (types : LocalTypes) : Prop := ∀ entry ∈ types, entry.2.isPlain = true

section Declared

variable {types : LocalTypes}

/-- Declaring a plain type keeps the known types plain. -/
theorem IsPlain.declare (h : types.IsPlain) (name : String) {ty : Ty} (hty : ty.isPlain = true) :
    (types.declare name ty).IsPlain := by
  unfold LocalTypes.declare
  split
  · exact h
  · exact List.forall_mem_cons.mpr ⟨hty, h⟩

theorem IsPlain.declareParams (h : types.IsPlain) {params : List Param}
    (hparams : ∀ p ∈ params, p.ty.isPlain = true) : (types.declareParams params).IsPlain :=
  List.foldlRecOn params _ h fun _ h p hp => h.declare p.name (hparams p hp)

/-- The type of a known name is plain. -/
theorem IsPlain.of_get? (h : types.IsPlain) {name : String} {ty : Ty}
    (hty : types.get? name = some ty) : ty.isPlain = true := by
  induction types with
  | nil => cases hty
  | cons entry rest ih =>
    obtain ⟨hentry, hrest⟩ := List.forall_mem_cons.mp h
    rw [get?, List.lookup_cons] at hty
    split at hty
    · cases hty
      exact hentry
    · exact ih hrest hty

/-- The parameters of typed function literals are plain. -/
theorem IsPlain.scanLiterals (h : types.IsPlain) {block : Block}
    (hblock : Within Node.isTyped block.nodes) : (types.scanLiterals block).IsPlain := by
  refine List.foldlRecOn _ _ h fun types h e he => ?_
  have hnode := hblock (.expr e) ((Block.mem_visit e block).mp he)
  cases e with
  | func params returns body span => exact h.declareParams (List.all_eq_true.mp hnode)
  | _ => exact h

end Declared

variable {table : SignatureTable}

/-- The type that can be read off a typed value is plain. -/
theorem isPlain_of_obvious? (htable : table.IsPlain) {types : LocalTypes} {value : Expr}
    (hvalue : Within Node.isTyped value.nodes) {ty : Ty}
    (h : obvious? table types value = some ty) : ty.isPlain = true := by
  unfold obvious? at h
  split at h
  · cases h
    exact (within_cons.mp hvalue).1
  · cases h
    -- The type of the composite literal stands one node further in.
    obtain ⟨-, hoperand⟩ := within_cons.mp hvalue
    rw [Ty.isPlain_pointer, Bool.true_and]
    exact (within_cons.mp hoperand).1
  · obtain ⟨sig, hsig, h⟩ := Option.bind_eq_some_iff.mp h
    split at h
    · rename_i single _ hvalues
      cases h
      obtain ⟨key, hkey⟩ := SignatureTable.exists_get?_of_resolve? hsig
      exact htable key sig hkey _ (by simp [hvalues])
    · cases h
  · cases h

/-- A definition of typed values declares plain types only. -/
theorem isPlain_scanAssign (htable : table.IsPlain) {types : LocalTypes} (h : types.IsPlain)
    (targets : List Expr) (op : AssignOp) {values : List Expr}
    (hvalues : Within Node.isTyped (Expr.nodesList values)) :
    (scanAssign table types targets op values).IsPlain := by
  unfold scanAssign
  split
  · split
    · rename_i hty
      exact h.declare _ (isPlain_of_obvious? htable (within_expr.mp hvalues) hty)
    · exact h
  · exact h

mutual
/-- Scanning typed code keeps the known types plain, by recursion on the tree. -/
theorem isPlain_scanBlock (htable : table.IsPlain) : ∀ (block : Block) {types : LocalTypes},
    Within Node.isTyped block.nodes → types.IsPlain → (scanBlock table types block).IsPlain
  | ⟨stmts, _⟩, _, hblock, h => (isPlain_scanStmts htable stmts hblock h).scanLiterals hblock

theorem isPlain_scanStmts (htable : table.IsPlain) : ∀ (stmts : List Stmt) {types : LocalTypes},
    Within Node.isTyped (Stmt.nodesList stmts) → types.IsPlain →
      (scanStmts table types stmts).IsPlain
  | [], _, _, h => h
  | stmt :: rest, _, hstmts, h => by
    obtain ⟨hstmt, hrest⟩ := within_append.mp hstmts
    exact isPlain_scanStmts htable rest hrest (isPlain_scanStmt htable stmt hstmt h)

theorem isPlain_scanStmt (htable : table.IsPlain) : ∀ (stmt : Stmt) {types : LocalTypes},
    Within Node.isTyped stmt.nodes → types.IsPlain → (scanStmt table types stmt).IsPlain
  | .var names (some ty) _ _, _, hstmt, h => by
    obtain ⟨hty, -⟩ := within_cons.mp hstmt
    exact List.foldlRecOn names _ h fun _ h name _ => h.declare name.name hty
  | .assign targets op values _, _, hstmt, h => by
    obtain ⟨-, -, hvalues⟩ := within_pair.mp hstmt
    exact isPlain_scanAssign htable h targets op hvalues
  | .cond branch, _, hstmt, h => isPlain_scanIf htable branch (within_cons.mp hstmt).2 h
  | .loop clause body _, _, hstmt, h => by
    obtain ⟨-, hclause, hbody⟩ := within_pair.mp hstmt
    exact isPlain_scanBlock htable body hbody (isPlain_scanClause htable clause hclause h)
  | .block body, _, hstmt, h => isPlain_scanBlock htable body (within_cons.mp hstmt).2 h
  | .var _ none _ _, _, _, h => h
  | .expr _, _, _, h => h
  | .ret _ _, _, _, h => h
  | .throw _ _, _, _, h => h
  | .bind _ _ _, _, _, h => h
  | .go _ _, _, _, h => h
  | .defer _ _, _, _, h => h
  | .breakLoop _, _, _, h => h
  | .continueLoop _, _, _, h => h

theorem isPlain_scanIf (htable : table.IsPlain) : ∀ (branch : If) {types : LocalTypes},
    Within Node.isTyped branch.nodes → types.IsPlain → (scanIf table types branch).IsPlain
  | ⟨_, thenBlock, otherwise, _⟩, _, hbranch, h => by
    obtain ⟨hbranch, hotherwise⟩ := within_append.mp hbranch
    obtain ⟨-, hthen⟩ := within_append.mp hbranch
    exact isPlain_scanElse htable otherwise hotherwise (isPlain_scanBlock htable thenBlock hthen h)

theorem isPlain_scanElse (htable : table.IsPlain) : ∀ (otherwise : Else) {types : LocalTypes},
    Within Node.isTyped otherwise.nodes → types.IsPlain →
      (scanElse table types otherwise).IsPlain
  | .none, _, _, h => h
  | .block body, _, hbody, h => isPlain_scanBlock htable body hbody h
  | .elseIf branch, _, hbranch, h => isPlain_scanIf htable branch hbranch h

theorem isPlain_scanClause (htable : table.IsPlain) : ∀ (clause : Clause) {types : LocalTypes},
    Within Node.isTyped clause.nodes → types.IsPlain → (scanClause table types clause).IsPlain
  | .three (some first) _ _, _, hclause, h => by
    obtain ⟨hclause, -⟩ := within_append.mp hclause
    exact isPlain_scanStmt htable first (within_append.mp hclause).1 h
  | .three none _ _, _, _, h => h
  | .infinite, _, _, h => h
  | .condition _, _, _, h => h
  | .range _ _ _ _, _, _, h => h
end

/-- The types known of the names of a function are plain if its own types are. -/
theorem isPlain_ofFunction (htable : table.IsPlain) {f : Function}
    (hf : (Item.func f).isWithin Node.isTyped = true) : (ofFunction table f).IsPlain := by
  obtain ⟨hparams, hbody⟩ := Item.isWithin_func.mp hf
  obtain ⟨hreceiver, hparams⟩ := List.forall_mem_append.mp hparams
  have hempty : IsPlain [] := List.forall_mem_nil _
  refine isPlain_scanBlock htable f.body hbody (IsPlain.declareParams ?_ hparams)
  cases hr : f.receiver with
  | none => exact hempty
  | some r => exact hempty.declare r.name (hreceiver r (by simp [hr]))

end LocalTypes

/-! ### The check -/

namespace NilFlow

/-- All types that are known in the scope are plain. -/
structure IsPlain (scope : Scope) : Prop where
  types : scope.types.IsPlain
  params : ∀ key, ∀ sig ∈ scope.table.get? key, ∀ t ∈ sig.params, t.isPlain = true

variable {scope : Scope}

/-- A plain type is never one that nil must not flow into. -/
theorem flow_eq_nil (sink : Sink) {t : Ty} (ht : t.isPlain = true) (value : Expr) :
    flow scope sink t.isNonNillable value = [] := by
  rw [flow, Ty.isNonNillable_of_isPlain ht]
  rfl

/-- Declarations with plain types have no fault. -/
theorem checkVar_eq_nil (names : List Ident) {ty : Option Ty} (h : ty.all Ty.isPlain = true)
    (values : List Expr) (span : Span) : checkVar scope names ty values span = [] := by
  cases ty with
  | none => rfl
  | some t =>
    have ht : t.isNonNillable = false := Ty.isNonNillable_of_isPlain h
    simp [checkVar, ht]

/-- Values that flow into plain types one by one. -/
theorem flatMap_flow_eq_nil (sink : Sink) {ts : List Ty} (hts : ∀ t ∈ ts, t.isPlain = true)
    (values : List Expr) :
    ((ts.zip values).flatMap fun (slot, value) => flow scope sink slot.isNonNillable value) =
      [] := by
  rw [List.flatMap_eq_nil_iff]
  intro ⟨slot, value⟩ hmem
  exact flow_eq_nil sink (hts slot (List.of_mem_zip hmem).1) value

/-- Returns of plain types have no fault. -/
theorem checkReturn_eq_nil {returns : List Ty} (h : ∀ t ∈ returns, t.isPlain = true)
    (values : List Expr) : checkReturn scope returns values = [] := by
  unfold checkReturn
  split
  · exact flatMap_flow_eq_nil .returnSlot h values
  · rfl

/-- The declared values of a function literal of the base language are plain. -/
theorem isPlain_literalReturns {returns : Option Ty} (h : Ty.isClause returns = true) :
    ∀ t ∈ literalReturns returns, t.isPlain = true := by
  cases returns with
  | none => exact List.forall_mem_nil _
  | some t =>
    cases t with
    | result inner => cases h
    | tuple slots => exact List.all_eq_true.mp (Bool.and_eq_true_iff.mp h).2
    | _ => exact List.forall_mem_singleton.mpr h

/-- No assignment has a fault where all known types are plain. -/
theorem checkStore_eq_nil (hscope : IsPlain scope) (target value : Expr) :
    checkStore scope target value = [] := by
  unfold checkStore
  split
  · rename_i name _
    cases hty : scope.types.get? name with
    | none => rfl
    | some t => exact flow_eq_nil (.name name) (hscope.types.of_get? hty) value
  · rfl

theorem checkAssign_eq_nil (hscope : IsPlain scope) (targets : List Expr) (op : AssignOp)
    (values : List Expr) : checkAssign scope targets op values = [] := by
  unfold checkAssign
  split
  · rw [List.flatMap_eq_nil_iff]
    intro ⟨target, value⟩ _
    exact checkStore_eq_nil hscope target value
  · rfl

/-- No argument has a fault where all known types are plain. -/
theorem checkArgs_eq_nil (hscope : IsPlain scope) (callee : Expr) (args : List Expr) :
    checkArgs scope callee args = [] := by
  unfold checkArgs
  split
  · rename_i sig hsig
    obtain ⟨key, hkey⟩ := SignatureTable.exists_get?_of_resolve? hsig
    exact flatMap_flow_eq_nil (.param sig.name) (hscope.params key sig hkey) args
  · rfl

section Body

-- In a mutual induction the linter does not see a hypothesis that is used in another theorem.
set_option linter.unusedSectionVars false

variable (hscope : IsPlain scope)

include hscope

mutual
/-- Code of the base language has no fault, by recursion on the tree. -/
theorem checkExpr_eq_nil :
    ∀ e : Expr, Within Node.isPropagated e.nodes → checkExpr scope e = []
  | .ident _ _, _ => rfl
  | .lit _ _, _ => rfl
  | .ofType _ _, _ => rfl
  | .call callee args _, h => by
    obtain ⟨-, hcallee, hargs⟩ := within_pair.mp h
    rw [checkExpr, checkArgs_eq_nil hscope, checkExpr_eq_nil callee hcallee,
      checkExprs_eq_nil args hargs]
    rfl
  | .template segments _, h => checkSegments_eq_nil segments (within_cons.mp h).2
  | .attempt operand _, h => checkExpr_eq_nil operand (within_cons.mp h).2
  | .binary _ left right _, h => by
    obtain ⟨-, hleft, hright⟩ := within_pair.mp h
    rw [checkExpr, checkExpr_eq_nil left hleft, checkExpr_eq_nil right hright]
    rfl
  | .unary _ operand _, h => checkExpr_eq_nil operand (within_cons.mp h).2
  | .selector base _ _, h => checkExpr_eq_nil base (within_cons.mp h).2
  | .index base index _, h => by
    obtain ⟨-, hbase, hindex⟩ := within_pair.mp h
    rw [checkExpr, checkExpr_eq_nil base hbase, checkExpr_eq_nil index hindex]
    rfl
  | .composite _ elements _, h => checkElements_eq_nil elements (within_cons.mp h).2
  | .func _ returns body _, h => by
    obtain ⟨hfunc, hbody⟩ := within_cons.mp h
    -- The body of a literal returns the values of the literal.
    have hreturns := isPlain_literalReturns (Bool.and_eq_true_iff.mp hfunc).2
    exact checkBlock_eq_nil hreturns body hbody

theorem checkExprs_eq_nil :
    ∀ es : List Expr, Within Node.isPropagated (Expr.nodesList es) → checkExprs scope es = []
  | [], _ => rfl
  | e :: rest, h => by
    obtain ⟨he, hrest⟩ := within_append.mp h
    rw [checkExprs, checkExpr_eq_nil e he, checkExprs_eq_nil rest hrest]
    rfl

theorem checkExpr?_eq_nil :
    ∀ e : Option Expr, Within Node.isPropagated (Expr.nodesOption e) → checkExpr? scope e = []
  | none, _ => rfl
  | some e, h => checkExpr_eq_nil e h

theorem checkSegments_eq_nil :
    ∀ segments : List Segment, Within Node.isPropagated (Segment.nodesList segments) →
      checkSegments scope segments = []
  | [], _ => rfl
  | .text _ :: rest, h => checkSegments_eq_nil rest h
  | .embed value _ _ :: rest, h => by
    obtain ⟨hvalue, hrest⟩ := within_append.mp h
    rw [checkSegments, checkExpr_eq_nil value hvalue, checkSegments_eq_nil rest hrest]
    rfl

theorem checkElements_eq_nil :
    ∀ elements : List Element, Within Node.isPropagated (Element.nodesList elements) →
      checkElements scope elements = []
  | [], _ => rfl
  | ⟨key, value⟩ :: rest, h => by
    obtain ⟨h, hrest⟩ := within_append.mp h
    obtain ⟨hkey, hvalue⟩ := within_append.mp h
    rw [checkElements, checkExpr?_eq_nil key hkey, checkExpr_eq_nil value hvalue,
      checkElements_eq_nil rest hrest]
    rfl

theorem checkBlock_eq_nil {returns : List Ty} (hreturns : ∀ t ∈ returns, t.isPlain = true) :
    ∀ block : Block, Within Node.isPropagated block.nodes → checkBlock scope returns block = []
  | ⟨stmts, _⟩, h => checkStmts_eq_nil hreturns stmts h

theorem checkStmts_eq_nil {returns : List Ty} (hreturns : ∀ t ∈ returns, t.isPlain = true) :
    ∀ stmts : List Stmt, Within Node.isPropagated (Stmt.nodesList stmts) →
      checkStmts scope returns stmts = []
  | [], _ => rfl
  | stmt :: rest, h => by
    obtain ⟨hstmt, hrest⟩ := within_append.mp h
    rw [checkStmts, checkStmt_eq_nil hreturns stmt hstmt,
      checkStmts_eq_nil hreturns rest hrest]
    rfl

theorem checkStmt_eq_nil {returns : List Ty} (hreturns : ∀ t ∈ returns, t.isPlain = true) :
    ∀ stmt : Stmt, Within Node.isPropagated stmt.nodes → checkStmt scope returns stmt = []
  | .var names ty values span, h => by
    obtain ⟨hty, hvalues⟩ := within_cons.mp h
    rw [checkStmt, checkVar_eq_nil names hty, checkExprs_eq_nil values hvalues]
    rfl
  | .assign targets op values _, h => by
    obtain ⟨-, htargets, hvalues⟩ := within_pair.mp h
    rw [checkStmt, checkAssign_eq_nil hscope, checkExprs_eq_nil targets htargets,
      checkExprs_eq_nil values hvalues]
    rfl
  | .expr value, h => checkExpr_eq_nil value (within_cons.mp h).2
  | .ret values _, h => by
    obtain ⟨-, hvalues⟩ := within_cons.mp h
    rw [checkStmt, checkReturn_eq_nil hreturns, checkExprs_eq_nil values hvalues]
    rfl
  | .cond ⟨condition, thenBlock, otherwise, _⟩, h => by
    obtain ⟨-, h⟩ := within_cons.mp h
    obtain ⟨h, hotherwise⟩ := within_append.mp h
    obtain ⟨hcondition, hthen⟩ := within_append.mp h
    rw [checkStmt, checkBlock_eq_nil hreturns thenBlock hthen,
      checkElse_eq_nil hreturns otherwise hotherwise,
      checkExpr_eq_nil condition hcondition]
    rfl
  | .loop clause body _, h => by
    obtain ⟨-, hclause, hbody⟩ := within_pair.mp h
    rw [checkStmt, checkFirst_eq_nil hreturns clause hclause,
      checkBlock_eq_nil hreturns body hbody, checkHeader_eq_nil clause hclause]
    rfl
  | .throw value _, h => checkExpr_eq_nil value (within_cons.mp h).2
  | .bind _ call _, h => checkExpr_eq_nil call (within_cons.mp h).2
  | .go call _, h => checkExpr_eq_nil call (within_cons.mp h).2
  | .defer call _, h => checkExpr_eq_nil call (within_cons.mp h).2
  | .breakLoop _, _ => rfl
  | .continueLoop _, _ => rfl
  | .block body, h => checkBlock_eq_nil hreturns body (within_cons.mp h).2

theorem checkElse_eq_nil {returns : List Ty} (hreturns : ∀ t ∈ returns, t.isPlain = true) :
    ∀ otherwise : Else, Within Node.isPropagated otherwise.nodes →
      checkElse scope returns otherwise = []
  | .none, _ => rfl
  | .block body, h => checkBlock_eq_nil hreturns body h
  | .elseIf ⟨_, thenBlock, otherwise, _⟩, h => by
    obtain ⟨h, hotherwise⟩ := within_append.mp h
    obtain ⟨-, hthen⟩ := within_append.mp h
    rw [checkElse, checkBlock_eq_nil hreturns thenBlock hthen,
      checkElse_eq_nil hreturns otherwise hotherwise]
    rfl

theorem checkFirst_eq_nil {returns : List Ty} (hreturns : ∀ t ∈ returns, t.isPlain = true) :
    ∀ clause : Clause, Within Node.isPropagated clause.nodes →
      checkFirst scope returns clause = []
  | .three (some first) _ _, h => by
    obtain ⟨h, -⟩ := within_append.mp h
    exact checkStmt_eq_nil hreturns first (within_append.mp h).1
  | .three none _ _, _ => rfl
  | .infinite, _ => rfl
  | .condition _, _ => rfl
  | .range _ _ _ _, _ => rfl

theorem checkHeader_eq_nil :
    ∀ clause : Clause, Within Node.isPropagated clause.nodes → checkHeader scope clause = []
  | .infinite, _ => rfl
  | .condition test, h => checkExpr_eq_nil test h
  | .three _ condition _, h => by
    obtain ⟨h, -⟩ := within_append.mp h
    exact checkExpr?_eq_nil condition (within_append.mp h).2
  | .range _ _ _ source, h => checkExpr_eq_nil source h
end

end Body

end NilFlow

/-- The check finds nothing in a function whose types are plain, if those of all signatures are. -/
theorem NilFlow.checkFunction_eq_nil {table : SignatureTable} (htable : table.IsPlain)
    (hsigs : ∀ key, ∀ sig ∈ table.get? key,
      (∀ t ∈ sig.params, t.isPlain = true) ∧ ∀ t ∈ sig.returns.declared, t.isPlain = true)
    {f : Function} (hf : (Item.func f).isWithin Node.isPropagated = true) :
    checkFunction table f = [] := by
  obtain ⟨hparams, hbody⟩ := Item.isWithin_func.mp hf
  have htyped : (Item.func f).isWithin Node.isTyped = true :=
    Item.isWithin_func.mpr ⟨hparams, hbody.mono fun _ => Node.isTyped_of_isPropagated⟩
  have hscope : IsPlain (.ofFunction table f) :=
    ⟨LocalTypes.isPlain_ofFunction htable htyped, fun key sig hsig => (hsigs key sig hsig).1⟩
  refine checkBlock_eq_nil hscope ?_ f.body hbody
  cases hsig : table.get? f.key with
  | none => exact List.forall_mem_nil _
  | some sig => exact (hsigs f.key sig hsig).2

end Desugar
