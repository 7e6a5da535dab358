import Desugar.ValueTypes
import Desugar.Proofs.Pass.Yields
import Desugar.Proofs.Signature
import Desugar.Proofs.Tree.Lowered

/-!
# Types in value position are lowered

If lowering the types of a unit meets no fault, every type in value position is plain and no
alternative of an enum carries values. The recorded signatures have plain values only, and every
function of the unit is found in the table, also by the key it has after its types are lowered.

- `lowerTypes_yields`: all of this for a unit.
-/

namespace Desugar

/-! ### The replaced types of a tree -/

section Replaced

variable (f : Ty → Ty)

/-- A type site is plain once it is replaced. -/
def plainAt (site : TypeSite) : Bool := (f site.1).isPlain

theorem all_plainAt_params (params : List Param) :
    (params.map Param.typeSite).all (plainAt f) =
      (params.map (Param.mapType f)).all fun p => p.ty.isPlain := by
  induction params with
  | nil => rfl
  | cons p rest ih => simp only [List.map_cons, List.all_cons, ih, plainAt, Param.typeSite,
      Param.mapType]

theorem all_plainAt_toList (ty : Option Ty) (span : Span) :
    (ty.map (·, span)).toList.all (plainAt f) = (ty.map f).all Ty.isPlain := by
  cases ty with
  | none => rfl
  | some t => simp [plainAt]

mutual
/-- The nodes are typed after replacement exactly if the replaced types are plain. -/
theorem Expr.all_isTyped_mapTypes : ∀ e : Expr,
    (e.mapTypes f).nodes.all Node.isTyped = e.typeSites.all (plainAt f)
  | .ident _ _ => rfl
  | .lit _ _ => rfl
  | .call callee args _ => by
    simp [Expr.mapTypes, Expr.nodes, Expr.typeSites, Node.isTyped,
      Expr.all_isTyped_mapTypes callee, Expr.all_isTyped_mapTypesList args]
  | .template segments _ => by
    simp [Expr.mapTypes, Expr.nodes, Expr.typeSites, Node.isTyped,
      Segment.all_isTyped_mapTypesList segments]
  | .attempt operand _ => by
    simp [Expr.mapTypes, Expr.nodes, Expr.typeSites, Node.isTyped,
      Expr.all_isTyped_mapTypes operand]
  | .binary _ left right _ => by
    simp [Expr.mapTypes, Expr.nodes, Expr.typeSites, Node.isTyped,
      Expr.all_isTyped_mapTypes left, Expr.all_isTyped_mapTypes right]
  | .unary _ operand _ => by
    simp [Expr.mapTypes, Expr.nodes, Expr.typeSites, Node.isTyped,
      Expr.all_isTyped_mapTypes operand]
  | .selector base _ _ => by
    simp [Expr.mapTypes, Expr.nodes, Expr.typeSites, Node.isTyped, Expr.all_isTyped_mapTypes base]
  | .index base index _ => by
    simp [Expr.mapTypes, Expr.nodes, Expr.typeSites, Node.isTyped,
      Expr.all_isTyped_mapTypes base, Expr.all_isTyped_mapTypes index]
  | .composite ty elements _ => by
    -- The type of a composite literal is listed after those of its elements.
    simp [Expr.mapTypes, Expr.nodes, Expr.typeSites, Node.isTyped,
      Element.all_isTyped_mapTypesList elements, plainAt, Bool.and_comm]
  | .func params _ body _ => by
    simp only [Expr.mapTypes, Expr.nodes, Expr.typeSites, Node.isTyped, List.all_cons,
      List.all_append, Block.all_isTyped_mapTypes body, all_plainAt_params]
  | .ofType ty _ => by
    simp [Expr.mapTypes, Expr.nodes, Expr.typeSites, Node.isTyped, plainAt]

theorem Expr.all_isTyped_mapTypesList : ∀ es : List Expr,
    (Expr.nodesList (Expr.mapTypesList f es)).all Node.isTyped =
      (Expr.typeSitesList es).all (plainAt f)
  | [] => rfl
  | e :: rest => by
    simp [Expr.mapTypesList, Expr.nodesList, Expr.typeSitesList, Expr.all_isTyped_mapTypes e,
      Expr.all_isTyped_mapTypesList rest]

theorem Expr.all_isTyped_mapTypesOption : ∀ e : Option Expr,
    (Expr.nodesOption (Expr.mapTypesOption f e)).all Node.isTyped =
      (Expr.typeSitesOption e).all (plainAt f)
  | none => rfl
  | some e => Expr.all_isTyped_mapTypes e

theorem Segment.all_isTyped_mapTypesList : ∀ segments : List Segment,
    (Segment.nodesList (Segment.mapTypesList f segments)).all Node.isTyped =
      (Segment.typeSitesList segments).all (plainAt f)
  | [] => rfl
  | .text _ :: rest => Segment.all_isTyped_mapTypesList rest
  | .embed value _ _ :: rest => by
    simp [Segment.mapTypesList, Segment.nodesList, Segment.typeSitesList,
      Expr.all_isTyped_mapTypes value, Segment.all_isTyped_mapTypesList rest]

theorem Element.all_isTyped_mapTypesList : ∀ elements : List Element,
    (Element.nodesList (Element.mapTypesList f elements)).all Node.isTyped =
      (Element.typeSitesList elements).all (plainAt f)
  | [] => rfl
  | ⟨key, value⟩ :: rest => by
    simp [Element.mapTypesList, Element.nodesList, Element.typeSitesList,
      Expr.all_isTyped_mapTypesOption key, Expr.all_isTyped_mapTypes value,
      Element.all_isTyped_mapTypesList rest]

/-- The nodes of rewritten code are typed if the new types at all sites are plain. -/
theorem Block.all_isTyped_mapTypes : ∀ block : Block,
    (block.mapTypes f).nodes.all Node.isTyped = block.typeSites.all (plainAt f)
  | ⟨stmts, _⟩ => Stmt.all_isTyped_mapTypesList stmts

theorem Stmt.all_isTyped_mapTypesList : ∀ stmts : List Stmt,
    (Stmt.nodesList (Stmt.mapTypesList f stmts)).all Node.isTyped =
      (Stmt.typeSitesList stmts).all (plainAt f)
  | [] => rfl
  | stmt :: rest => by
    simp [Stmt.mapTypesList, Stmt.nodesList, Stmt.typeSitesList, Stmt.all_isTyped_mapTypes stmt,
      Stmt.all_isTyped_mapTypesList rest]

theorem Stmt.all_isTyped_mapTypes : ∀ stmt : Stmt,
    (stmt.mapTypes f).nodes.all Node.isTyped = stmt.typeSites.all (plainAt f)
  | .var _ ty values span => by
    simp only [Stmt.mapTypes, Stmt.nodes, Stmt.typeSites, Node.isTyped, List.all_cons,
      List.all_append, Expr.all_isTyped_mapTypesList values, all_plainAt_toList]
  | .assign targets _ values _ => by
    simp [Stmt.mapTypes, Stmt.nodes, Stmt.typeSites, Node.isTyped,
      Expr.all_isTyped_mapTypesList targets, Expr.all_isTyped_mapTypesList values]
  | .expr value => by
    simp [Stmt.mapTypes, Stmt.nodes, Stmt.typeSites, Node.isTyped,
      Expr.all_isTyped_mapTypes value]
  | .ret values _ => by
    simp [Stmt.mapTypes, Stmt.nodes, Stmt.typeSites, Node.isTyped,
      Expr.all_isTyped_mapTypesList values]
  | .cond branch => by
    simp [Stmt.mapTypes, Stmt.nodes, Stmt.typeSites, Node.isTyped, If.all_isTyped_mapTypes branch]
  | .loop clause body _ => by
    simp [Stmt.mapTypes, Stmt.nodes, Stmt.typeSites, Node.isTyped,
      Clause.all_isTyped_mapTypes clause, Block.all_isTyped_mapTypes body]
  | .throw value _ => by
    simp [Stmt.mapTypes, Stmt.nodes, Stmt.typeSites, Node.isTyped,
      Expr.all_isTyped_mapTypes value]
  | .bind _ call _ => by
    simp [Stmt.mapTypes, Stmt.nodes, Stmt.typeSites, Node.isTyped, Expr.all_isTyped_mapTypes call]
  | .go call _ => by
    simp [Stmt.mapTypes, Stmt.nodes, Stmt.typeSites, Node.isTyped, Expr.all_isTyped_mapTypes call]
  | .defer call _ => by
    simp [Stmt.mapTypes, Stmt.nodes, Stmt.typeSites, Node.isTyped, Expr.all_isTyped_mapTypes call]
  | .breakLoop _ => rfl
  | .continueLoop _ => rfl
  | .block body => by
    simp [Stmt.mapTypes, Stmt.nodes, Stmt.typeSites, Node.isTyped, Block.all_isTyped_mapTypes body]

theorem Stmt.all_isTyped_mapTypesOption : ∀ stmt : Option Stmt,
    (Stmt.nodesOption (Stmt.mapTypesOption f stmt)).all Node.isTyped =
      (Stmt.typeSitesOption stmt).all (plainAt f)
  | none => rfl
  | some stmt => Stmt.all_isTyped_mapTypes stmt

theorem If.all_isTyped_mapTypes : ∀ branch : If,
    (branch.mapTypes f).nodes.all Node.isTyped = branch.typeSites.all (plainAt f)
  | ⟨condition, thenBlock, otherwise, _⟩ => by
    simp [If.mapTypes, If.nodes, If.typeSites, Expr.all_isTyped_mapTypes condition,
      Block.all_isTyped_mapTypes thenBlock, Else.all_isTyped_mapTypes otherwise]

theorem Else.all_isTyped_mapTypes : ∀ otherwise : Else,
    (otherwise.mapTypes f).nodes.all Node.isTyped = otherwise.typeSites.all (plainAt f)
  | .none => rfl
  | .block body => Block.all_isTyped_mapTypes body
  | .elseIf branch => If.all_isTyped_mapTypes branch

theorem Clause.all_isTyped_mapTypes : ∀ clause : Clause,
    (clause.mapTypes f).nodes.all Node.isTyped = clause.typeSites.all (plainAt f)
  | .infinite => rfl
  | .condition test => Expr.all_isTyped_mapTypes test
  | .three first condition post => by
    simp [Clause.mapTypes, Clause.nodes, Clause.typeSites, Stmt.all_isTyped_mapTypesOption first,
      Expr.all_isTyped_mapTypesOption condition, Stmt.all_isTyped_mapTypesOption post]
  | .range _ _ _ source => Expr.all_isTyped_mapTypes source
end

end Replaced

/-- Replaces the types in value position of a node. -/
def Node.mapTypes (f : Ty → Ty) : Node → Node
  | .expr e => .expr (e.mapTypes f)
  | .stmt s => .stmt (s.mapTypes f)

section Nodes

variable (f : Ty → Ty)

mutual
/-- Every node is replaced by itself with other types. -/
theorem Expr.nodes_mapTypes : ∀ e : Expr, (e.mapTypes f).nodes = e.nodes.map (Node.mapTypes f)
  | .ident _ _ => rfl
  | .lit _ _ => rfl
  | .ofType _ _ => rfl
  | .call callee args _ => by
    simp [Expr.mapTypes, Expr.nodes, Node.mapTypes, Expr.nodes_mapTypes callee,
      Expr.nodesList_mapTypes args]
  | .template segments _ => by
    simp [Expr.mapTypes, Expr.nodes, Node.mapTypes, Segment.nodesList_mapTypes segments]
  | .attempt operand _ => by
    simp [Expr.mapTypes, Expr.nodes, Node.mapTypes, Expr.nodes_mapTypes operand]
  | .binary _ left right _ => by
    simp [Expr.mapTypes, Expr.nodes, Node.mapTypes, Expr.nodes_mapTypes left,
      Expr.nodes_mapTypes right]
  | .unary _ operand _ => by
    simp [Expr.mapTypes, Expr.nodes, Node.mapTypes, Expr.nodes_mapTypes operand]
  | .selector base _ _ => by
    simp [Expr.mapTypes, Expr.nodes, Node.mapTypes, Expr.nodes_mapTypes base]
  | .index base index _ => by
    simp [Expr.mapTypes, Expr.nodes, Node.mapTypes, Expr.nodes_mapTypes base,
      Expr.nodes_mapTypes index]
  | .composite _ elements _ => by
    simp [Expr.mapTypes, Expr.nodes, Node.mapTypes, Element.nodesList_mapTypes elements]
  | .func _ _ body _ => by
    simp [Expr.mapTypes, Expr.nodes, Node.mapTypes, Block.nodes_mapTypes body]

theorem Expr.nodesList_mapTypes : ∀ es : List Expr,
    Expr.nodesList (Expr.mapTypesList f es) = (Expr.nodesList es).map (Node.mapTypes f)
  | [] => rfl
  | e :: rest => by
    simp [Expr.mapTypesList, Expr.nodesList, Expr.nodes_mapTypes e, Expr.nodesList_mapTypes rest]

theorem Expr.nodesOption_mapTypes : ∀ e : Option Expr,
    Expr.nodesOption (Expr.mapTypesOption f e) = (Expr.nodesOption e).map (Node.mapTypes f)
  | none => rfl
  | some e => Expr.nodes_mapTypes e

theorem Segment.nodesList_mapTypes : ∀ segments : List Segment,
    Segment.nodesList (Segment.mapTypesList f segments) =
      (Segment.nodesList segments).map (Node.mapTypes f)
  | [] => rfl
  | .text _ :: rest => Segment.nodesList_mapTypes rest
  | .embed value _ _ :: rest => by
    simp [Segment.mapTypesList, Segment.nodesList, Expr.nodes_mapTypes value,
      Segment.nodesList_mapTypes rest]

theorem Element.nodesList_mapTypes : ∀ elements : List Element,
    Element.nodesList (Element.mapTypesList f elements) =
      (Element.nodesList elements).map (Node.mapTypes f)
  | [] => rfl
  | ⟨key, value⟩ :: rest => by
    simp [Element.mapTypesList, Element.nodesList, Expr.nodesOption_mapTypes key,
      Expr.nodes_mapTypes value, Element.nodesList_mapTypes rest]

theorem Block.nodes_mapTypes : ∀ block : Block,
    (block.mapTypes f).nodes = block.nodes.map (Node.mapTypes f)
  | ⟨stmts, _⟩ => Stmt.nodesList_mapTypes stmts

theorem Stmt.nodesList_mapTypes : ∀ stmts : List Stmt,
    Stmt.nodesList (Stmt.mapTypesList f stmts) = (Stmt.nodesList stmts).map (Node.mapTypes f)
  | [] => rfl
  | stmt :: rest => by
    simp [Stmt.mapTypesList, Stmt.nodesList, Stmt.nodes_mapTypes stmt,
      Stmt.nodesList_mapTypes rest]

/-- A rewriting of types rewrites the nodes, and keeps their order. -/
theorem Stmt.nodes_mapTypes : ∀ stmt : Stmt,
    (stmt.mapTypes f).nodes = stmt.nodes.map (Node.mapTypes f)
  | .var _ _ values _ => by
    simp [Stmt.mapTypes, Stmt.nodes, Node.mapTypes, Expr.nodesList_mapTypes values]
  | .assign targets _ values _ => by
    simp [Stmt.mapTypes, Stmt.nodes, Node.mapTypes, Expr.nodesList_mapTypes targets,
      Expr.nodesList_mapTypes values]
  | .expr value => by
    simp [Stmt.mapTypes, Stmt.nodes, Node.mapTypes, Expr.nodes_mapTypes value]
  | .ret values _ => by
    simp [Stmt.mapTypes, Stmt.nodes, Node.mapTypes, Expr.nodesList_mapTypes values]
  | .cond branch => by
    simp [Stmt.mapTypes, Stmt.nodes, Node.mapTypes, If.nodes_mapTypes branch]
  | .loop clause body _ => by
    simp [Stmt.mapTypes, Stmt.nodes, Node.mapTypes, Clause.nodes_mapTypes clause,
      Block.nodes_mapTypes body]
  | .throw value _ => by
    simp [Stmt.mapTypes, Stmt.nodes, Node.mapTypes, Expr.nodes_mapTypes value]
  | .bind _ call _ => by
    simp [Stmt.mapTypes, Stmt.nodes, Node.mapTypes, Expr.nodes_mapTypes call]
  | .go call _ => by
    simp [Stmt.mapTypes, Stmt.nodes, Node.mapTypes, Expr.nodes_mapTypes call]
  | .defer call _ => by
    simp [Stmt.mapTypes, Stmt.nodes, Node.mapTypes, Expr.nodes_mapTypes call]
  | .breakLoop _ => rfl
  | .continueLoop _ => rfl
  | .block body => by
    simp [Stmt.mapTypes, Stmt.nodes, Node.mapTypes, Block.nodes_mapTypes body]

theorem Stmt.nodesOption_mapTypes : ∀ stmt : Option Stmt,
    Stmt.nodesOption (Stmt.mapTypesOption f stmt) = (Stmt.nodesOption stmt).map (Node.mapTypes f)
  | none => rfl
  | some stmt => Stmt.nodes_mapTypes stmt

theorem If.nodes_mapTypes : ∀ branch : If,
    (branch.mapTypes f).nodes = branch.nodes.map (Node.mapTypes f)
  | ⟨condition, thenBlock, otherwise, _⟩ => by
    simp [If.mapTypes, If.nodes, Expr.nodes_mapTypes condition, Block.nodes_mapTypes thenBlock,
      Else.nodes_mapTypes otherwise]

theorem Else.nodes_mapTypes : ∀ otherwise : Else,
    (otherwise.mapTypes f).nodes = otherwise.nodes.map (Node.mapTypes f)
  | .none => rfl
  | .block body => Block.nodes_mapTypes body
  | .elseIf branch => If.nodes_mapTypes branch

theorem Clause.nodes_mapTypes : ∀ clause : Clause,
    (clause.mapTypes f).nodes = clause.nodes.map (Node.mapTypes f)
  | .infinite => rfl
  | .condition test => Expr.nodes_mapTypes test
  | .three first condition post => by
    simp [Clause.mapTypes, Clause.nodes, Stmt.nodesOption_mapTypes first,
      Expr.nodesOption_mapTypes condition, Stmt.nodesOption_mapTypes post]
  | .range _ _ _ source => Expr.nodes_mapTypes source
end

/-- The nodes of a rewritten item are the rewritten nodes. -/
theorem Item.nodes_mapTypes (item : Item) :
    (item.mapTypes f).nodes = item.nodes.map (Node.mapTypes f) := by
  cases item with
  | func decl => exact Block.nodes_mapTypes f decl.body
  | const decl => exact Expr.nodes_mapTypes f decl.value
  | _ => rfl

/-- Replacing types makes no function literal. -/
theorem Expr.within_notFunc_mapTypes (e : Expr)
    (h : Within (fun node => !node.isFunc) e.nodes) :
    Within (fun node => !node.isFunc) (e.mapTypes f).nodes := by
  intro node hnode
  rw [Expr.nodes_mapTypes] at hnode
  obtain ⟨source, hsource, rfl⟩ := List.mem_map.mp hnode
  have hfunc : (source.mapTypes f).isFunc = source.isFunc := by
    match source with
    | .expr e => cases e <;> rfl
    | .stmt _ => rfl
  show (!(source.mapTypes f).isFunc) = true
  rw [hfunc]
  exact h source hsource

end Nodes

/-! ### Lowered items -/

section Items

variable {policy : OptionPolicy}

/-- A type that can be lowered is lowered to a plain one. -/
theorem Ty.isPlain_lowered {t u : Ty} (h : t.lower policy = .ok u) :
    (t.lowered policy).isPlain = true := by
  rw [Ty.lowered, h]
  exact Ty.isPlain_of_lower h

/-- An item without type faults has plain lowered types at all sites. -/
theorem Item.plainAt_of_typeFaults {item : Item} (h : item.typeFaults policy = []) :
    ∀ site ∈ item.typeSites, plainAt (Ty.lowered policy) site = true := by
  intro ⟨t, span⟩ hsite
  have hfault := List.filterMap_eq_nil_iff.mp h (t, span) hsite
  cases ht : t.lower policy with
  | ok u => exact Ty.isPlain_lowered ht
  | error cause => simp [ht] at hfault

/-- An enum without payload faults carries no values. -/
theorem Enum.fields_isEmpty {decl : Enum} (h : decl.payloadFaults = []) :
    decl.variants.all (fun variant => variant.fields.isEmpty) = true := by
  unfold payloadFaults at h
  split at h
  · cases h
  · rename_i hfind
    simpa using hfind

/-- An item is typed after replacement exactly if the replaced types are plain and it is no enum
whose alternatives carry values. -/
theorem Item.isWithin_mapTypes_iff (f : Ty → Ty) (item : Item) :
    (item.mapTypes f).isWithin Node.isTyped = true ↔
      item.typeSites.all (plainAt f) = true ∧ ∀ decl, item = .enum decl →
        decl.variants.all (fun variant => variant.fields.isEmpty) = true := by
  cases item with
  | func decl =>
    rw [typeSites, List.all_append, all_plainAt_params, List.map_append, ← Option.toList_map,
      ← Block.all_isTyped_mapTypes]
    exact ⟨fun h => ⟨h, nofun⟩, And.left⟩
  | struct decl =>
    rw [typeSites, all_plainAt_params]
    exact ⟨fun h => ⟨h, nofun⟩, And.left⟩
  | const decl =>
    rw [typeSites, List.all_append, all_plainAt_toList, ← Expr.all_isTyped_mapTypes]
    exact ⟨fun h => ⟨h, nofun⟩, And.left⟩
  | enum decl => exact ⟨fun h => ⟨rfl, by rintro _ ⟨⟩; exact h⟩, fun h => h.2 decl rfl⟩
  | support stem => exact ⟨fun _ => ⟨rfl, nofun⟩, fun _ => rfl⟩

/-- An item without faults is typed once its types are replaced. -/
theorem Item.isWithin_mapTypes {table : SignatureTable} {item : Item}
    (hsource : item.sourceFaults table = []) (htypes : item.typeFaults policy = []) :
    (item.mapTypes (Ty.lowered policy)).isWithin Node.isTyped = true := by
  refine (isWithin_mapTypes_iff _ item).mpr
    ⟨List.all_eq_true.mpr (plainAt_of_typeFaults htypes), ?_⟩
  rintro decl rfl
  exact Enum.fields_isEmpty hsource

/-- A named type under any number of pointer layers. -/
def Ty.isReceiver : Ty → Bool
  | named _ => true
  | pointer inner _ => inner.isReceiver
  | _ => false

/-- Lowering keeps the name under which methods are kept. -/
theorem Ty.receiverName_lower : ∀ {t u : Ty}, t.isReceiver = true → t.lower policy = .ok u →
    u.receiverName = t.receiverName
  | named _, _, _, h => by
    cases h
    rfl
  | pointer inner _, _, hreceiver, h => by
    obtain ⟨lowered, hlowered, h⟩ := bind_eq_ok h
    cases h
    show lowered.receiverName = inner.receiverName
    exact receiverName_lower hreceiver hlowered

/-- Lowering keeps the name of a receiver type. -/
theorem Ty.receiverName_lowered {t : Ty} (h : t.isReceiver = true) :
    (t.lowered policy).receiverName = t.receiverName := by
  unfold lowered
  split
  · rename_i hlower
    exact receiverName_lower h hlower
  · rfl

/-- Lowering keeps the key of a function. -/
theorem Function.key_mapTypes {decl lowered : Function}
    (hreceiver : ∀ r ∈ decl.receiver, r.ty.isReceiver = true)
    (h : (Item.func decl).mapTypes (Ty.lowered policy) = .func lowered) :
    lowered.key = decl.key := by
  cases h
  cases hr : decl.receiver with
  | none => simp [key, hr]
  | some r =>
    have hname : (r.ty.lowered policy).receiverName = r.ty.receiverName :=
      Ty.receiverName_lowered (hreceiver r hr)
    simp [key, hr, Param.mapType, hname]

end Items

/-! ### Signatures -/

namespace SignatureTable

/-- Recording an item without a fault keeps what is known, and makes a function known. -/
theorem recordItem_yields {policy : OptionPolicy} {table : SignatureTable} (h : table.IsPlain)
    (item : Item) :
    (table.recordItem policy item).Yields fun table' =>
      table'.IsPlain ∧ table'.Extends table ∧
        ∀ f, item = .func f → (table'.get? f.key).isSome := by
  cases item with
  | func decl =>
    cases hshape : ReturnShape.ofClause policy decl.returns with
    | error cause =>
      simp only [recordItem, hshape]
      exact Noted.yields_report_bind _
    | ok shape =>
      simp only [recordItem, hshape]
      refine (Noted.yields_record _).bind fun _ _ => .pure ⟨?_, extends_insert, ?_⟩
      · exact h.insert (ReturnShape.all_isPlain_values hshape)
      · rintro f ⟨⟩
        rw [get?_insert_self]
        rfl
  | struct decl => exact .pure ⟨h, Extends.refl table, nofun⟩
  | enum decl => exact .pure ⟨h, Extends.refl table, nofun⟩
  | const decl => exact .pure ⟨h, Extends.refl table, nofun⟩
  | support stem => exact .pure ⟨h, Extends.refl table, nofun⟩

/-- A table that records items stays plain, loses no key, and has the key of each function. -/
theorem foldlM_recordItem_yields {policy : OptionPolicy} :
    ∀ (items : List Item) {table : SignatureTable}, table.IsPlain →
      (items.foldlM (recordItem policy) table).Yields fun table' =>
        table'.IsPlain ∧ table'.Extends table ∧
          ∀ f, .func f ∈ items → (table'.get? f.key).isSome
  | [], table, h => .pure ⟨h, Extends.refl table, nofun⟩
  | item :: rest, table, h => by
    rw [List.foldlM_cons]
    refine (recordItem_yields h item).bind fun mid ⟨hmid, hkeep, hnew⟩ => ?_
    refine (foldlM_recordItem_yields rest hmid).mono fun last ⟨hlast, hkeep', hrest⟩ => ?_
    refine ⟨hlast, hkeep'.trans hkeep, ?_⟩
    intro f hf
    rcases List.mem_cons.mp hf with hf | hf
    · exact hkeep' f.key (hnew f hf.symm)
    · exact hrest f hf

end SignatureTable

/-! ### The pass -/

/-- What lowering the types of a unit makes of it, if it meets no fault. -/
theorem lowerTypes_yields (settings : Settings) (program : Program) :
    (lowerTypes settings program).Yields fun (typed, table) =>
      typed.items = program.items.map (Item.mapTypes (Ty.lowered settings.optionPolicy)) ∧
        (∀ item ∈ typed.items, item.isWithin Node.isTyped = true) ∧ table.IsPlain ∧
          ∀ f, .func f ∈ program.items → (table.get? f.key).isSome := by
  have hempty : SignatureTable.IsPlain {} := fun _ _ h => nomatch h
  -- Signatures are recorded before anything is reported, and from the types as they were written.
  refine (SignatureTable.foldlM_recordItem_yields program.items hempty).bind
    fun table ⟨hplain, _, hknown⟩ => ?_
  refine (Noted.yields_report _).bind fun _ hsource => ?_
  refine (Noted.yields_report _).bind fun _ htypes => .pure ⟨rfl, ?_, hplain, hknown⟩
  intro item hitem
  obtain ⟨source, hmem, rfl⟩ := List.mem_map.mp hitem
  exact Item.isWithin_mapTypes (List.flatMap_eq_nil_iff.mp hsource source hmem)
    (List.flatMap_eq_nil_iff.mp htypes source hmem)

/-- Constants without function literals have none once their types are lowered. -/
theorem lowerTypes_constants (settings : Settings) {program : Program}
    (hconstants : ∀ c, .const c ∈ program.items → ∀ node ∈ c.value.nodes, node.isFunc = false) :
    (lowerTypes settings program).Yields fun (typed, _) =>
      ∀ c, .const c ∈ typed.items → Within (fun node => !node.isFunc) c.value.nodes := by
  refine (lowerTypes_yields settings program).mono fun (typed, table) ⟨hmapped, _⟩ => ?_
  intro c hc
  obtain ⟨source, hsource, hmap⟩ := List.mem_map.mp (hmapped ▸ hc)
  cases source with
  | const decl =>
    cases hmap
    refine Expr.within_notFunc_mapTypes _ decl.value fun node hnode => ?_
    simpa using hconstants decl hsource node hnode
  | _ => cases hmap

/-- The key under which a signature was recorded survives the lowering of the receiver. -/
theorem lowerTypes_knows (settings : Settings) {program : Program}
    (hreceivers : ∀ f, .func f ∈ program.items → ∀ r ∈ f.receiver, r.ty.isReceiver = true) :
    (lowerTypes settings program).Yields fun (typed, table) =>
      ∀ f, .func f ∈ typed.items → (table.get? f.key).isSome := by
  refine (lowerTypes_yields settings program).mono fun (typed, table) ⟨hmapped, _, _, hknown⟩ => ?_
  intro f hf
  obtain ⟨source, hsource, hmap⟩ := List.mem_map.mp (hmapped ▸ hf)
  cases source with
  | func decl =>
    rw [Function.key_mapTypes (hreceivers decl hsource) hmap]
    exact hknown decl hsource
  | _ => cases hmap

end Desugar
