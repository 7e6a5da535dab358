import Desugar.NilFlow
import Desugar.Noted

/-!
# Types in value position

The types of receivers, parameters, fields, variables, constants, composite literals and type
expressions are types of values and have to be lowered wherever they stand. Return clauses are
not in value position; they are kept for error propagation to lower.

* `Item.typeSites` lists the types in value position with their places, in source order: the
  type of a declaration before its values, the type of a composite literal after its elements.
* `Item.mapTypes` replaces them.
* `lowerTypes` is the pass: it records the signatures, checks the unit as it was written, and
  lowers every type in value position.
-/

namespace Desugar

/-- A type in value position and its place. -/
abbrev TypeSite := Ty × Span

/-- The type site of a parameter. -/
def Param.typeSite (p : Param) : TypeSite := (p.ty, p.span)

/-- Replaces the type of a parameter. -/
def Param.mapType (f : Ty → Ty) (p : Param) : Param := { p with ty := f p.ty }

mutual
/-- The types in value position of an expression. -/
def Expr.typeSites (e : Expr) : List TypeSite :=
  match e with
  | .ident _ _ | .lit _ _ => []
  | .call callee args _ => callee.typeSites ++ Expr.typeSitesList args
  | .template segments _ => Segment.typeSitesList segments
  | .attempt operand _ => operand.typeSites
  | .binary _ left right _ => left.typeSites ++ right.typeSites
  | .unary _ operand _ => operand.typeSites
  | .selector base _ _ => base.typeSites
  | .index base index _ => base.typeSites ++ index.typeSites
  | .composite ty elements span => Element.typeSitesList elements ++ [(ty, span)]
  | .func params _ body _ => params.map Param.typeSite ++ body.typeSites
  | .ofType ty span => [(ty, span)]
termination_by structural e

/-- The types in value position of a list of expressions. -/
def Expr.typeSitesList (es : List Expr) : List TypeSite :=
  match es with
  | [] => []
  | e :: es => e.typeSites ++ Expr.typeSitesList es
termination_by structural es

/-- The types in value position of an optional expression. -/
def Expr.typeSitesOption (e : Option Expr) : List TypeSite :=
  match e with
  | none => []
  | some e => e.typeSites
termination_by structural e

/-- The types in value position of a template. -/
def Segment.typeSitesList (segments : List Segment) : List TypeSite :=
  match segments with
  | [] => []
  | .text _ :: rest => Segment.typeSitesList rest
  | .embed value _ _ :: rest => value.typeSites ++ Segment.typeSitesList rest
termination_by structural segments

/-- The types in value position of the elements of a composite literal. -/
def Element.typeSitesList (elements : List Element) : List TypeSite :=
  match elements with
  | [] => []
  | ⟨key, value⟩ :: rest =>
    Expr.typeSitesOption key ++ value.typeSites ++ Element.typeSitesList rest
termination_by structural elements

/-- The types in value position of a block. -/
def Block.typeSites (block : Block) : List TypeSite :=
  match block with
  | ⟨stmts, _⟩ => Stmt.typeSitesList stmts
termination_by structural block

/-- The types in value position of a list of statements. -/
def Stmt.typeSitesList (stmts : List Stmt) : List TypeSite :=
  match stmts with
  | [] => []
  | stmt :: rest => stmt.typeSites ++ Stmt.typeSitesList rest
termination_by structural stmts

/-- The types in value position of a statement. -/
def Stmt.typeSites (stmt : Stmt) : List TypeSite :=
  match stmt with
  | .var _ ty values span => (ty.map (·, span)).toList ++ Expr.typeSitesList values
  | .assign targets _ values _ => Expr.typeSitesList targets ++ Expr.typeSitesList values
  | .expr value => value.typeSites
  | .ret values _ => Expr.typeSitesList values
  | .cond branch => branch.typeSites
  | .loop clause body _ => clause.typeSites ++ body.typeSites
  | .throw value _ => value.typeSites
  | .bind _ call _ => call.typeSites
  | .go call _ => call.typeSites
  | .defer call _ => call.typeSites
  | .breakLoop _ | .continueLoop _ => []
  | .block body => body.typeSites
termination_by structural stmt

/-- The types in value position of an optional statement. -/
def Stmt.typeSitesOption (stmt : Option Stmt) : List TypeSite :=
  match stmt with
  | none => []
  | some stmt => stmt.typeSites
termination_by structural stmt

/-- The types in value position of a conditional. -/
def If.typeSites (branch : If) : List TypeSite :=
  match branch with
  | ⟨condition, thenBlock, otherwise, _⟩ =>
    condition.typeSites ++ thenBlock.typeSites ++ otherwise.typeSites
termination_by structural branch

/-- The types in value position of what follows a failed condition. -/
def Else.typeSites (otherwise : Else) : List TypeSite :=
  match otherwise with
  | .none => []
  | .block body => body.typeSites
  | .elseIf branch => branch.typeSites
termination_by structural otherwise

/-- The types in value position of a loop header. -/
def Clause.typeSites (clause : Clause) : List TypeSite :=
  match clause with
  | .infinite => []
  | .condition test => test.typeSites
  | .three first condition post =>
    Stmt.typeSitesOption first ++ Expr.typeSitesOption condition ++ Stmt.typeSitesOption post
  | .range _ _ _ source => source.typeSites
termination_by structural clause
end

mutual
/-- Replaces the types in value position of an expression. -/
def Expr.mapTypes (f : Ty → Ty) (e : Expr) : Expr :=
  match e with
  | .ident name span => .ident name span
  | .lit value span => .lit value span
  | .call callee args span => .call (callee.mapTypes f) (Expr.mapTypesList f args) span
  | .template segments span => .template (Segment.mapTypesList f segments) span
  | .attempt operand span => .attempt (operand.mapTypes f) span
  | .binary op left right span => .binary op (left.mapTypes f) (right.mapTypes f) span
  | .unary op operand span => .unary op (operand.mapTypes f) span
  | .selector base field span => .selector (base.mapTypes f) field span
  | .index base index span => .index (base.mapTypes f) (index.mapTypes f) span
  | .composite ty elements span => .composite (f ty) (Element.mapTypesList f elements) span
  | .func params returns body span =>
    .func (params.map (Param.mapType f)) returns (body.mapTypes f) span
  | .ofType ty span => .ofType (f ty) span
termination_by structural e

/-- Replaces the types in value position of a list of expressions. -/
def Expr.mapTypesList (f : Ty → Ty) (es : List Expr) : List Expr :=
  match es with
  | [] => []
  | e :: es => e.mapTypes f :: Expr.mapTypesList f es
termination_by structural es

/-- Replaces the types in value position of an optional expression. -/
def Expr.mapTypesOption (f : Ty → Ty) (e : Option Expr) : Option Expr :=
  match e with
  | none => none
  | some e => some (e.mapTypes f)
termination_by structural e

/-- Replaces the types in value position of a template. -/
def Segment.mapTypesList (f : Ty → Ty) (segments : List Segment) : List Segment :=
  match segments with
  | [] => []
  | .text value :: rest => .text value :: Segment.mapTypesList f rest
  | .embed value verb span :: rest =>
    .embed (value.mapTypes f) verb span :: Segment.mapTypesList f rest
termination_by structural segments

/-- Replaces the types in value position of the elements of a composite literal. -/
def Element.mapTypesList (f : Ty → Ty) (elements : List Element) : List Element :=
  match elements with
  | [] => []
  | ⟨key, value⟩ :: rest =>
    ⟨Expr.mapTypesOption f key, value.mapTypes f⟩ :: Element.mapTypesList f rest
termination_by structural elements

/-- Replaces the types in value position of a block. -/
def Block.mapTypes (f : Ty → Ty) (block : Block) : Block :=
  match block with
  | ⟨stmts, span⟩ => ⟨Stmt.mapTypesList f stmts, span⟩
termination_by structural block

/-- Replaces the types in value position of a list of statements. -/
def Stmt.mapTypesList (f : Ty → Ty) (stmts : List Stmt) : List Stmt :=
  match stmts with
  | [] => []
  | stmt :: rest => stmt.mapTypes f :: Stmt.mapTypesList f rest
termination_by structural stmts

/-- Replaces the types in value position of a statement. -/
def Stmt.mapTypes (f : Ty → Ty) (stmt : Stmt) : Stmt :=
  match stmt with
  | .var names ty values span => .var names (ty.map f) (Expr.mapTypesList f values) span
  | .assign targets op values span =>
    .assign (Expr.mapTypesList f targets) op (Expr.mapTypesList f values) span
  | .expr value => .expr (value.mapTypes f)
  | .ret values span => .ret (Expr.mapTypesList f values) span
  | .cond branch => .cond (branch.mapTypes f)
  | .loop clause body span => .loop (clause.mapTypes f) (body.mapTypes f) span
  | .throw value span => .throw (value.mapTypes f) span
  | .bind names call span => .bind names (call.mapTypes f) span
  | .go call span => .go (call.mapTypes f) span
  | .defer call span => .defer (call.mapTypes f) span
  | .breakLoop span => .breakLoop span
  | .continueLoop span => .continueLoop span
  | .block body => .block (body.mapTypes f)
termination_by structural stmt

/-- Replaces the types in value position of an optional statement. -/
def Stmt.mapTypesOption (f : Ty → Ty) (stmt : Option Stmt) : Option Stmt :=
  match stmt with
  | none => none
  | some stmt => some (stmt.mapTypes f)
termination_by structural stmt

/-- Replaces the types in value position of a conditional. -/
def If.mapTypes (f : Ty → Ty) (branch : If) : If :=
  match branch with
  | ⟨condition, thenBlock, otherwise, span⟩ =>
    ⟨condition.mapTypes f, thenBlock.mapTypes f, otherwise.mapTypes f, span⟩
termination_by structural branch

/-- Replaces the types in value position of what follows a failed condition. -/
def Else.mapTypes (f : Ty → Ty) (otherwise : Else) : Else :=
  match otherwise with
  | .none => .none
  | .block body => .block (body.mapTypes f)
  | .elseIf branch => .elseIf (branch.mapTypes f)
termination_by structural otherwise

/-- Replaces the types in value position of a loop header. -/
def Clause.mapTypes (f : Ty → Ty) (clause : Clause) : Clause :=
  match clause with
  | .infinite => .infinite
  | .condition test => .condition (test.mapTypes f)
  | .three first condition post =>
    .three (Stmt.mapTypesOption f first) (Expr.mapTypesOption f condition)
      (Stmt.mapTypesOption f post)
  | .range key value define source => .range key value define (source.mapTypes f)
termination_by structural clause
end

namespace Item

/-- The types in value position of an item. -/
def typeSites : Item → List TypeSite
  | func decl =>
    (decl.receiver.toList ++ decl.params).map Param.typeSite ++ decl.body.typeSites
  | struct decl => decl.fields.map Param.typeSite
  | const decl => (decl.ty.map (·, decl.span)).toList ++ decl.value.typeSites
  | enum _ | support _ => []

/-- Replaces the types in value position of an item. -/
def mapTypes (f : Ty → Ty) : Item → Item
  | func decl => func { decl with
      receiver := decl.receiver.map (Param.mapType f)
      params := decl.params.map (Param.mapType f)
      body := decl.body.mapTypes f }
  | struct decl => struct { decl with fields := decl.fields.map (Param.mapType f) }
  | const decl => const { decl with ty := decl.ty.map f, value := decl.value.mapTypes f }
  | enum decl => enum decl
  | support stem => support stem

end Item

/-- Records what an item tells about signatures and struct types. -/
def SignatureTable.recordItem (policy : OptionPolicy) (table : SignatureTable) :
    Item → Noted SignatureTable
  | .struct decl => pure (table.insertStruct decl.name)
  | .func decl =>
    match ReturnShape.ofClause policy decl.returns with
    | .ok shape => do
      Noted.record (.signature decl.key shape.values.length shape.isResult)
      pure (table.insert decl.key
        { name := decl.name, params := decl.params.map (·.ty), returns := shape })
    | .error cause => do
      Noted.report [⟨cause, decl.span⟩]
      pure table
  | _ => pure table

/-- The signatures and struct types of a unit. -/
def SignatureTable.ofItems (policy : OptionPolicy) (items : List Item) : Noted SignatureTable :=
  items.foldlM (SignatureTable.recordItem policy) {}

/-- The fault of an enum that has a variant with values. Only the first such variant counts. -/
def Enum.payloadFaults (decl : Enum) : List Fault :=
  match decl.variants.find? fun variant => !variant.fields.isEmpty with
  | some variant => [⟨.payload decl.name variant.name, variant.span⟩]
  | none => []

/-- The faults of an item as it was written. -/
def Item.sourceFaults (table : SignatureTable) : Item → List Fault
  | .func decl => NilFlow.checkFunction table decl
  | .enum decl => decl.payloadFaults
  | _ => []

/-- The faults of the types in value position of an item. -/
def Item.typeFaults (policy : OptionPolicy) (item : Item) : List Fault :=
  item.typeSites.filterMap fun (ty, span) =>
    match ty.lower policy with
    | .ok _ => none
    | .error cause => some ⟨cause, span⟩

/-- The lowered type, or the type itself where it has none. -/
def Ty.lowered (policy : OptionPolicy) (t : Ty) : Ty :=
  match t.lower policy with
  | .ok u => u
  | .error _ => t

/-- Lowers the types in value position of a unit, and gives its signatures. -/
def lowerTypes (settings : Settings) (program : Program) : Noted (Program × SignatureTable) := do
  let policy := settings.optionPolicy
  let table ← SignatureTable.ofItems policy program.items
  Noted.report (program.items.flatMap (Item.sourceFaults table))
  Noted.report (program.items.flatMap (Item.typeFaults policy))
  pure ({ program with items := program.items.map (Item.mapTypes (Ty.lowered policy)) }, table)

end Desugar
