import Desugar.Signature
import Desugar.Tree.Visit

/-!
# Types of local names

A flat record of what is known about the types of the names in one function. Scopes are not
told apart: the last declaration of a name counts for the whole body. It serves to find the
signature behind a call (`SignatureTable.resolve?`): a plain name means a function of the unit
unless a local name hides it, and a method call is resolved through the type of its receiver.
-/

namespace Desugar

/-- The known types of local names, the most recent declaration first. -/
abbrev LocalTypes := List (String × Ty)

namespace LocalTypes

/-- Records the type of a name. The blank name is never recorded. -/
def declare (types : LocalTypes) (name : String) (ty : Ty) : LocalTypes :=
  if name = "_" then types else (name, ty) :: types

/-- The type of a name, if it is known. -/
def get? (types : LocalTypes) (name : String) : Option Ty := types.lookup name

/-- Records the types of parameters. -/
def declareParams (types : LocalTypes) (params : List Param) : LocalTypes :=
  params.foldl (fun types p => types.declare p.name p.ty) types

end LocalTypes

/-- The signature of what is called, if the callee is a function or method of the unit. -/
def SignatureTable.resolve? (table : SignatureTable) (types : LocalTypes) : Expr → Option Signature
  | .ident name _ =>
    match types.get? name with
    | none => table.get? name
    | some _ => none
  | .selector (.ident receiver _) method _ =>
    (types.get? receiver).bind fun ty => table.get? (methodKey ty.receiverName method)
  | _ => none

namespace LocalTypes

/-- The type of an initial value, where it can be read off its form. -/
def obvious? (table : SignatureTable) (types : LocalTypes) : Expr → Option Ty
  | .composite ty _ _ => some ty
  | .unary .addressOf (.composite ty _ _) _ => some (.pointer ty true)
  | .call callee _ _ =>
    (table.resolve? types callee).bind fun sig =>
      match sig.isResult, sig.values with
      | false, [single] => some single
      | _, _ => none
  | _ => none

/-- Records what an assignment tells about the type of its target. -/
def scanAssign (table : SignatureTable) (types : LocalTypes) :
    List Expr → AssignOp → List Expr → LocalTypes
  | [.ident name _], .define, [value] =>
    match obvious? table types value with
    | some ty => types.declare name ty
    | none => types
  | _, _, _ => types

/-- Records the parameters of every function literal in a block. -/
def scanLiterals (types : LocalTypes) (block : Block) : LocalTypes :=
  (block.visit fun _ => true).foldl
    (fun types e => match e with
      | .func params _ _ _ => types.declareParams params
      | _ => types)
    types

mutual
/-- Records the declarations of a block: those of its statements, then the parameters of the
function literals in it. -/
def scanBlock (table : SignatureTable) (types : LocalTypes) (block : Block) : LocalTypes :=
  match block with
  | ⟨stmts, span⟩ => (scanStmts table types stmts).scanLiterals ⟨stmts, span⟩
termination_by structural block

/-- Records the declarations of a list of statements. -/
def scanStmts (table : SignatureTable) (types : LocalTypes) (stmts : List Stmt) : LocalTypes :=
  match stmts with
  | [] => types
  | stmt :: rest => scanStmts table (scanStmt table types stmt) rest
termination_by structural stmts

/-- Records the declarations of a statement and of the blocks in it. -/
def scanStmt (table : SignatureTable) (types : LocalTypes) (stmt : Stmt) : LocalTypes :=
  match stmt with
  | .var names (some ty) _ _ => names.foldl (fun types n => types.declare n.name ty) types
  | .assign targets op values _ => scanAssign table types targets op values
  | .cond branch => scanIf table types branch
  | .loop clause body _ => scanBlock table (scanClause table types clause) body
  | .block body => scanBlock table types body
  | _ => types
termination_by structural stmt

/-- Records the declarations of a conditional. -/
def scanIf (table : SignatureTable) (types : LocalTypes) (branch : If) : LocalTypes :=
  match branch with
  | ⟨_, thenBlock, otherwise, _⟩ => scanElse table (scanBlock table types thenBlock) otherwise
termination_by structural branch

/-- Records the declarations of what follows a failed condition. -/
def scanElse (table : SignatureTable) (types : LocalTypes) (otherwise : Else) : LocalTypes :=
  match otherwise with
  | .none => types
  | .block body => scanBlock table types body
  | .elseIf branch => scanIf table types branch
termination_by structural otherwise

/-- Records the declarations of the first statement of a loop header. -/
def scanClause (table : SignatureTable) (types : LocalTypes) (clause : Clause) : LocalTypes :=
  match clause with
  | .three (some first) _ _ => scanStmt table types first
  | _ => types
termination_by structural clause
end

/-- The known types of the names of a function: its receiver, its parameters, then its body. -/
def ofFunction (table : SignatureTable) (f : Function) : LocalTypes :=
  let receiver : LocalTypes := match f.receiver with
    | some r => declare [] r.name r.ty
    | none => []
  scanBlock table (receiver.declareParams f.params) f.body

end LocalTypes

/-- What is known inside a function: the signatures of the unit and the types of local names. -/
structure Scope where
  table : SignatureTable
  types : LocalTypes

namespace Scope

/-- The scope of a function. -/
def ofFunction (table : SignatureTable) (f : Function) : Scope :=
  { table, types := .ofFunction table f }

/-- The signature of what is called. -/
def resolve? (scope : Scope) (callee : Expr) : Option Signature :=
  scope.table.resolve? scope.types callee

end Scope

end Desugar
