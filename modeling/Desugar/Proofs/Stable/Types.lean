import Desugar.Proofs.ValueTypes

/-!
# Types that are lowered already

Where every type in value position is plain, lowering them once more changes nothing and meets no
fault.

- `Item.mapTypes_eq_self`: an item whose types are all kept is kept.
- `Item.mapTypes_lowered` and `Item.typeFaults_eq_nil`: what this means for an item whose types are
  plain.
-/

namespace Desugar

/-! ### Replacing types by themselves -/

section Kept

variable {f : Ty → Ty}

/-- The replacement keeps the types in these places. -/
def KeptAt (f : Ty → Ty) (sites : List TypeSite) : Prop := ∀ site ∈ sites, f site.1 = site.1

theorem keptAt_append {sites rest : List TypeSite} :
    KeptAt f (sites ++ rest) ↔ KeptAt f sites ∧ KeptAt f rest :=
  List.forall_mem_append

theorem keptAt_leaf {ty : Ty} {span : Span} : KeptAt f [(ty, span)] ↔ f ty = ty :=
  List.forall_mem_singleton

/-- Parameters are kept if their types are. -/
theorem map_mapType_eq_self {params : List Param} (h : KeptAt f (params.map Param.typeSite)) :
    params.map (Param.mapType f) = params := by
  induction params with
  | nil => rfl
  | cons p rest ih =>
    obtain ⟨hp, hrest⟩ := List.forall_mem_cons.mp h
    have hty : f p.ty = p.ty := hp
    rw [List.map_cons, ih hrest, Param.mapType, hty]

theorem map_eq_self_of_keptAt {ty : Option Ty} {span : Span}
    (h : KeptAt f (ty.map (·, span)).toList) : ty.map f = ty := by
  cases ty with
  | none => rfl
  | some t => exact congrArg some (keptAt_leaf.mp h)

mutual
/-- A tree is kept if the types at all its sites are, by recursion on the tree. -/
theorem Expr.mapTypes_eq_self : ∀ e : Expr, KeptAt f e.typeSites → e.mapTypes f = e
  | .ident _ _, _ => rfl
  | .lit _ _, _ => rfl
  | .call callee args _, h => by
    obtain ⟨hcallee, hargs⟩ := keptAt_append.mp h
    rw [Expr.mapTypes, Expr.mapTypes_eq_self callee hcallee, Expr.mapTypesList_eq_self args hargs]
  | .template segments _, h => by rw [Expr.mapTypes, Segment.mapTypesList_eq_self segments h]
  | .attempt operand _, h => by rw [Expr.mapTypes, Expr.mapTypes_eq_self operand h]
  | .binary _ left right _, h => by
    obtain ⟨hleft, hright⟩ := keptAt_append.mp h
    rw [Expr.mapTypes, Expr.mapTypes_eq_self left hleft, Expr.mapTypes_eq_self right hright]
  | .unary _ operand _, h => by rw [Expr.mapTypes, Expr.mapTypes_eq_self operand h]
  | .selector base _ _, h => by rw [Expr.mapTypes, Expr.mapTypes_eq_self base h]
  | .index base index _, h => by
    obtain ⟨hbase, hindex⟩ := keptAt_append.mp h
    rw [Expr.mapTypes, Expr.mapTypes_eq_self base hbase, Expr.mapTypes_eq_self index hindex]
  | .composite _ elements _, h => by
    obtain ⟨helements, hty⟩ := keptAt_append.mp h
    rw [Expr.mapTypes, Element.mapTypesList_eq_self elements helements, keptAt_leaf.mp hty]
  | .func params _ body _, h => by
    obtain ⟨hparams, hbody⟩ := keptAt_append.mp h
    rw [Expr.mapTypes, map_mapType_eq_self hparams, Block.mapTypes_eq_self body hbody]
  | .ofType _ _, h => by rw [Expr.mapTypes, keptAt_leaf.mp h]

theorem Expr.mapTypesList_eq_self :
    ∀ es : List Expr, KeptAt f (Expr.typeSitesList es) → Expr.mapTypesList f es = es
  | [], _ => rfl
  | e :: rest, h => by
    obtain ⟨he, hrest⟩ := keptAt_append.mp h
    rw [Expr.mapTypesList, Expr.mapTypes_eq_self e he, Expr.mapTypesList_eq_self rest hrest]

theorem Expr.mapTypesOption_eq_self :
    ∀ e : Option Expr, KeptAt f (Expr.typeSitesOption e) → Expr.mapTypesOption f e = e
  | none, _ => rfl
  | some e, h => congrArg some (Expr.mapTypes_eq_self e h)

theorem Segment.mapTypesList_eq_self :
    ∀ segments : List Segment, KeptAt f (Segment.typeSitesList segments) →
      Segment.mapTypesList f segments = segments
  | [], _ => rfl
  | .text _ :: rest, h => by rw [Segment.mapTypesList, Segment.mapTypesList_eq_self rest h]
  | .embed value _ _ :: rest, h => by
    obtain ⟨hvalue, hrest⟩ := keptAt_append.mp h
    rw [Segment.mapTypesList, Expr.mapTypes_eq_self value hvalue,
      Segment.mapTypesList_eq_self rest hrest]

theorem Element.mapTypesList_eq_self :
    ∀ elements : List Element, KeptAt f (Element.typeSitesList elements) →
      Element.mapTypesList f elements = elements
  | [], _ => rfl
  | ⟨key, value⟩ :: rest, h => by
    obtain ⟨h, hrest⟩ := keptAt_append.mp h
    obtain ⟨hkey, hvalue⟩ := keptAt_append.mp h
    rw [Element.mapTypesList, Expr.mapTypesOption_eq_self key hkey,
      Expr.mapTypes_eq_self value hvalue, Element.mapTypesList_eq_self rest hrest]

theorem Block.mapTypes_eq_self :
    ∀ block : Block, KeptAt f block.typeSites → block.mapTypes f = block
  | ⟨stmts, _⟩, h => by rw [Block.mapTypes, Stmt.mapTypesList_eq_self stmts h]

theorem Stmt.mapTypesList_eq_self :
    ∀ stmts : List Stmt, KeptAt f (Stmt.typeSitesList stmts) → Stmt.mapTypesList f stmts = stmts
  | [], _ => rfl
  | stmt :: rest, h => by
    obtain ⟨hstmt, hrest⟩ := keptAt_append.mp h
    rw [Stmt.mapTypesList, Stmt.mapTypes_eq_self stmt hstmt, Stmt.mapTypesList_eq_self rest hrest]

theorem Stmt.mapTypes_eq_self : ∀ stmt : Stmt, KeptAt f stmt.typeSites → stmt.mapTypes f = stmt
  | .var _ ty values _, h => by
    obtain ⟨hty, hvalues⟩ := keptAt_append.mp h
    rw [Stmt.mapTypes, map_eq_self_of_keptAt hty, Expr.mapTypesList_eq_self values hvalues]
  | .assign targets _ values _, h => by
    obtain ⟨htargets, hvalues⟩ := keptAt_append.mp h
    rw [Stmt.mapTypes, Expr.mapTypesList_eq_self targets htargets,
      Expr.mapTypesList_eq_self values hvalues]
  | .expr value, h => by rw [Stmt.mapTypes, Expr.mapTypes_eq_self value h]
  | .ret values _, h => by rw [Stmt.mapTypes, Expr.mapTypesList_eq_self values h]
  | .cond branch, h => by rw [Stmt.mapTypes, If.mapTypes_eq_self branch h]
  | .loop clause body _, h => by
    obtain ⟨hclause, hbody⟩ := keptAt_append.mp h
    rw [Stmt.mapTypes, Clause.mapTypes_eq_self clause hclause, Block.mapTypes_eq_self body hbody]
  | .throw value _, h => by rw [Stmt.mapTypes, Expr.mapTypes_eq_self value h]
  | .bind _ call _, h => by rw [Stmt.mapTypes, Expr.mapTypes_eq_self call h]
  | .go call _, h => by rw [Stmt.mapTypes, Expr.mapTypes_eq_self call h]
  | .defer call _, h => by rw [Stmt.mapTypes, Expr.mapTypes_eq_self call h]
  | .breakLoop _, _ => rfl
  | .continueLoop _, _ => rfl
  | .block body, h => by rw [Stmt.mapTypes, Block.mapTypes_eq_self body h]

theorem Stmt.mapTypesOption_eq_self :
    ∀ stmt : Option Stmt, KeptAt f (Stmt.typeSitesOption stmt) → Stmt.mapTypesOption f stmt = stmt
  | none, _ => rfl
  | some stmt, h => congrArg some (Stmt.mapTypes_eq_self stmt h)

theorem If.mapTypes_eq_self : ∀ branch : If, KeptAt f branch.typeSites → branch.mapTypes f = branch
  | ⟨condition, thenBlock, otherwise, _⟩, h => by
    obtain ⟨h, hotherwise⟩ := keptAt_append.mp h
    obtain ⟨hcondition, hthen⟩ := keptAt_append.mp h
    rw [If.mapTypes, Expr.mapTypes_eq_self condition hcondition,
      Block.mapTypes_eq_self thenBlock hthen, Else.mapTypes_eq_self otherwise hotherwise]

theorem Else.mapTypes_eq_self :
    ∀ otherwise : Else, KeptAt f otherwise.typeSites → otherwise.mapTypes f = otherwise
  | .none, _ => rfl
  | .block body, h => by rw [Else.mapTypes, Block.mapTypes_eq_self body h]
  | .elseIf branch, h => by rw [Else.mapTypes, If.mapTypes_eq_self branch h]

theorem Clause.mapTypes_eq_self :
    ∀ clause : Clause, KeptAt f clause.typeSites → clause.mapTypes f = clause
  | .infinite, _ => rfl
  | .condition test, h => by rw [Clause.mapTypes, Expr.mapTypes_eq_self test h]
  | .three first condition post, h => by
    obtain ⟨h, hpost⟩ := keptAt_append.mp h
    obtain ⟨hfirst, hcondition⟩ := keptAt_append.mp h
    rw [Clause.mapTypes, Stmt.mapTypesOption_eq_self first hfirst,
      Expr.mapTypesOption_eq_self condition hcondition, Stmt.mapTypesOption_eq_self post hpost]
  | .range _ _ _ source, h => by rw [Clause.mapTypes, Expr.mapTypes_eq_self source h]
end

/-- An item whose types in value position are all kept is kept. -/
theorem Item.mapTypes_eq_self {item : Item} (h : KeptAt f item.typeSites) :
    item.mapTypes f = item := by
  cases item with
  | func decl =>
    rw [typeSites, List.map_append, List.append_assoc] at h
    obtain ⟨hreceiver, h⟩ := keptAt_append.mp h
    obtain ⟨hparams, hbody⟩ := keptAt_append.mp h
    have hreceiver : decl.receiver.map (Param.mapType f) = decl.receiver := by
      cases hr : decl.receiver with
      | none => rfl
      | some r =>
        rw [hr] at hreceiver
        exact congrArg List.head? (map_mapType_eq_self hreceiver)
    rw [mapTypes, hreceiver, map_mapType_eq_self hparams, Block.mapTypes_eq_self decl.body hbody]
  | struct decl => rw [mapTypes, map_mapType_eq_self h]
  | const decl =>
    obtain ⟨hty, hvalue⟩ := keptAt_append.mp h
    rw [mapTypes, map_eq_self_of_keptAt hty, Expr.mapTypes_eq_self decl.value hvalue]
  | enum decl => rfl
  | support stem => rfl

end Kept

/-! ### Plain types -/

section Plain

variable (policy : OptionPolicy)

/-- A plain type is lowered to itself. -/
theorem Ty.lowered_of_isPlain {t : Ty} (h : t.isPlain = true) : t.lowered policy = t := by
  rw [Ty.lowered, Ty.lower_of_isPlain policy h]

variable {item : Item}

/-- The types in value position of an item are plain if its nodes are typed. -/
theorem Item.isPlain_typeSites (h : item.isWithin Node.isTyped = true) :
    ∀ site ∈ item.typeSites, site.1.isPlain = true := by
  -- Replacing every type by itself turns the property of nodes into one of types.
  have hself : item.mapTypes id = item := mapTypes_eq_self fun _ _ => rfl
  rw [← hself, isWithin_mapTypes_iff] at h
  exact List.all_eq_true.mp h.1

/-- An item with plain types is kept. -/
theorem Item.mapTypes_lowered (h : item.isWithin Node.isTyped = true) :
    item.mapTypes (Ty.lowered policy) = item :=
  mapTypes_eq_self fun site hsite => Ty.lowered_of_isPlain policy (isPlain_typeSites h site hsite)

/-- An item with plain types has no type fault. -/
theorem Item.typeFaults_eq_nil (h : item.isWithin Node.isTyped = true) :
    item.typeFaults policy = [] := by
  rw [typeFaults, List.filterMap_eq_nil_iff]
  intro ⟨t, span⟩ hsite
  simp only [Ty.lower_of_isPlain policy (isPlain_typeSites h _ hsite)]

/-- An enum of the base language carries no values that would have to be reported. -/
theorem Enum.payloadFaults_eq_nil {decl : Enum}
    (h : (Item.enum decl).isWithin Node.isTyped = true) : decl.payloadFaults = [] := by
  have hfind : decl.variants.find? (fun variant => !variant.fields.isEmpty) = none := by
    rw [List.find?_eq_none]
    intro variant hvariant
    simpa using List.all_eq_true.mp h variant hvariant
  rw [payloadFaults, hfind]

end Plain

end Desugar
