import Desugar.Tree.Visit

/-!
# The names of a function

`Function.names` lists every name that a function declares or mentions, at any depth. Names that
lowering makes up are kept apart from these. A name is listed as often as the walk meets it: the
statements of a nested block are met once for every block around them.
-/

namespace Desugar

/-- The names that an expression node brings in by itself: a reference, or the parameters of a
function literal. -/
def Expr.ownNames : Expr → List String
  | .ident name _ => [name]
  | .func params _ _ _ => params.map (·.name)
  | _ => []

/-- The names brought in by the expressions of a block, function literals included. -/
def Block.mentions (block : Block) : List String :=
  (block.visit fun _ => true).flatMap Expr.ownNames

/-- The variables that the header of a loop ranges with. -/
def Clause.rangeNames : Clause → List String
  | .range key value _ _ => (key.toList ++ value.toList).map (·.name)
  | _ => []

mutual
/-- The names of a block: what its statements declare, then what its expressions mention. -/
def Block.names (block : Block) : List String :=
  match block with
  | ⟨stmts, span⟩ => Stmt.declaredList stmts ++ Block.mentions ⟨stmts, span⟩
termination_by structural block

/-- The names that a list of statements declares, those of nested blocks included. -/
def Stmt.declaredList (stmts : List Stmt) : List String :=
  match stmts with
  | [] => []
  | stmt :: rest => stmt.declared ++ Stmt.declaredList rest
termination_by structural stmts

/-- The names that a statement declares, and all names of the blocks nested in it. -/
def Stmt.declared (stmt : Stmt) : List String :=
  match stmt with
  | .var names _ _ _ => names.map (·.name)
  | .bind names _ _ => names.map (·.name)
  | .loop clause body _ => clause.rangeNames ++ body.names
  | .block body => body.names
  | .cond branch => branch.names
  | _ => []
termination_by structural stmt

/-- The names of the blocks of a conditional. -/
def If.names (branch : If) : List String :=
  match branch with
  | ⟨_, thenBlock, otherwise, _⟩ => thenBlock.names ++ otherwise.names
termination_by structural branch

/-- The names of the blocks that follow a failed condition. -/
def Else.names (otherwise : Else) : List String :=
  match otherwise with
  | .none => []
  | .block body => body.names
  | .elseIf branch => branch.names
termination_by structural otherwise
end

/-- Every name that a function declares or mentions. -/
def Function.names (f : Function) : List String :=
  f.params.map (·.name) ++ (f.receiver.map (·.name)).toList ++ f.body.names

end Desugar
