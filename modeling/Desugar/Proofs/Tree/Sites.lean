import Desugar.Proofs.Tree.Nodes

/-!
# The sites of a tree

A site is a node together with the position that it stands in. `Expr.sites e` lists the sites of
`e` outside function literals, that of a literal itself included, and the functions beside it do the
same for every other kind of tree. So the sites of a body are those that belong to its function. An
expression needs a single value in most positions; in a few its values may be any number, and then
its site is `spread`.

- `Block.nodes_eq`: the nodes of a block are those of its sites and those inside the literals among
  them.
- `Expr.isAttempt_sites`: a tree that contains no `try` has no site of one.
-/

namespace Desugar

/-- A node and its position. -/
structure Site where
  node : Node
  /-- An expression whose values may be none or several: an expression statement, the only value
  for several targets, or the only value of a return. -/
  spread : Bool := false

namespace Site

/-- Spreads the values of the first site of a list, if the position allows it. -/
def spreadIf (allowed : Bool) : List Site → List Site
  | [] => []
  | site :: rest => { site with spread := site.spread || allowed } :: rest

/-- A sole value among several targets. -/
def isSole (targets : Nat) (values : List Expr) : Bool := values.length == 1 && 1 < targets

@[simp] theorem map_node_spreadIf (allowed : Bool) (sites : List Site) :
    (spreadIf allowed sites).map node = sites.map node := by
  cases sites <;> rfl

@[simp] theorem spreadIf_cons (allowed : Bool) (site : Site) (rest : List Site) :
    spreadIf allowed (site :: rest) = { site with spread := site.spread || allowed } :: rest := rfl

@[simp] theorem spreadIf_false (sites : List Site) : spreadIf false sites = sites := by
  cases sites <;> simp [spreadIf]

end Site

mutual
/-- The sites of an expression, that of the expression itself first. -/
def Expr.sites (e : Expr) : List Site :=
  match e with
  | .ident name span => [⟨.expr (.ident name span), false⟩]
  | .lit value span => [⟨.expr (.lit value span), false⟩]
  | .call callee args span =>
    ⟨.expr (.call callee args span), false⟩ :: (callee.sites ++ Expr.sitesList args)
  | .template segments span =>
    ⟨.expr (.template segments span), false⟩ :: Segment.sitesList segments
  | .attempt operand span => ⟨.expr (.attempt operand span), false⟩ :: operand.sites
  | .binary op left right span =>
    ⟨.expr (.binary op left right span), false⟩ :: (left.sites ++ right.sites)
  | .unary op operand span => ⟨.expr (.unary op operand span), false⟩ :: operand.sites
  | .selector base field span => ⟨.expr (.selector base field span), false⟩ :: base.sites
  | .index base index span =>
    ⟨.expr (.index base index span), false⟩ :: (base.sites ++ index.sites)
  | .composite ty elements span =>
    ⟨.expr (.composite ty elements span), false⟩ :: Element.sitesList elements
  | .func params returns body span =>
    [⟨.expr (.func params returns body span), false⟩]
  | .ofType ty span => [⟨.expr (.ofType ty span), false⟩]
termination_by structural e

/-- The sites of a list of expressions. -/
def Expr.sitesList (es : List Expr) : List Site :=
  match es with
  | [] => []
  | e :: rest => e.sites ++ Expr.sitesList rest
termination_by structural es

/-- The sites of an optional expression. -/
def Expr.sitesOption (e : Option Expr) : List Site :=
  match e with
  | none => []
  | some e => e.sites
termination_by structural e

/-- The sites of a template. -/
def Segment.sitesList (segments : List Segment) : List Site :=
  match segments with
  | [] => []
  | .text _ :: rest => Segment.sitesList rest
  | .embed value _ _ :: rest => value.sites ++ Segment.sitesList rest
termination_by structural segments

/-- The sites of the elements of a composite literal. -/
def Element.sitesList (elements : List Element) : List Site :=
  match elements with
  | [] => []
  | ⟨key, value⟩ :: rest =>
    Expr.sitesOption key ++ value.sites ++ Element.sitesList rest
termination_by structural elements

/-- The sites of a block. -/
def Block.sites (block : Block) : List Site :=
  match block with
  | ⟨stmts, _⟩ => Stmt.sitesList stmts
termination_by structural block

/-- The sites of a list of statements. -/
def Stmt.sitesList (stmts : List Stmt) : List Site :=
  match stmts with
  | [] => []
  | stmt :: rest => stmt.sites ++ Stmt.sitesList rest
termination_by structural stmts

/-- The sites of a statement, that of the statement itself first. -/
def Stmt.sites (stmt : Stmt) : List Site :=
  match stmt with
  | .var names ty values span =>
    ⟨.stmt (.var names ty values span), false⟩ ::
      Site.spreadIf (Site.isSole names.length values) (Expr.sitesList values)
  | .assign targets op values span =>
    ⟨.stmt (.assign targets op values span), false⟩ :: (Expr.sitesList targets ++
      Site.spreadIf (Site.isSole targets.length values) (Expr.sitesList values))
  | .expr value => ⟨.stmt (.expr value), false⟩ :: Site.spreadIf true (value.sites)
  | .ret values span =>
    ⟨.stmt (.ret values span), false⟩ ::
      Site.spreadIf (values.length == 1) (Expr.sitesList values)
  | .cond branch => ⟨.stmt (.cond branch), false⟩ :: branch.sites
  | .loop clause body span =>
    ⟨.stmt (.loop clause body span), false⟩ :: (clause.sites ++ body.sites)
  | .throw value span => ⟨.stmt (.throw value span), false⟩ :: value.sites
  | .bind names call span => ⟨.stmt (.bind names call span), false⟩ :: call.sites
  | .go call span => ⟨.stmt (.go call span), false⟩ :: call.sites
  | .defer call span => ⟨.stmt (.defer call span), false⟩ :: call.sites
  | .breakLoop span => [⟨.stmt (.breakLoop span), false⟩]
  | .continueLoop span => [⟨.stmt (.continueLoop span), false⟩]
  | .block body => ⟨.stmt (.block body), false⟩ :: body.sites
termination_by structural stmt

/-- The sites of an optional statement. -/
def Stmt.sitesOption (stmt : Option Stmt) : List Site :=
  match stmt with
  | none => []
  | some stmt => stmt.sites
termination_by structural stmt

/-- The sites of a conditional. -/
def If.sites (branch : If) : List Site :=
  match branch with
  | ⟨condition, thenBlock, otherwise, _⟩ =>
    condition.sites ++ thenBlock.sites ++ otherwise.sites
termination_by structural branch

/-- The sites of what follows a failed condition. -/
def Else.sites (otherwise : Else) : List Site :=
  match otherwise with
  | .none => []
  | .block body => body.sites
  | .elseIf branch => branch.sites
termination_by structural otherwise

/-- The sites of a loop header. -/
def Clause.sites (clause : Clause) : List Site :=
  match clause with
  | .infinite => []
  | .condition test => test.sites
  | .three first condition post =>
    Stmt.sitesOption first ++ Expr.sitesOption condition ++ Stmt.sitesOption post
  | .range _ _ _ source => source.sites
termination_by structural clause
end

/-- The first site of an expression is that of the expression itself. -/
theorem Expr.exists_sites_eq_cons (e : Expr) : ∃ rest, e.sites = ⟨.expr e, false⟩ :: rest := by
  cases e <;> exact ⟨_, rfl⟩

@[simp] theorem Expr.spreadIf_sites_append (allowed : Bool) (e : Expr) (rest : List Site) :
    Site.spreadIf allowed (e.sites ++ rest) = Site.spreadIf allowed e.sites ++ rest := by
  obtain ⟨parts, he⟩ := e.exists_sites_eq_cons
  rw [he]
  rfl

/-- The sites of expressions are listed in order. -/
theorem Expr.sitesList_append (before after : List Expr) :
    Expr.sitesList (before ++ after) =
      Expr.sitesList before ++ Expr.sitesList after := by
  induction before with
  | nil => rfl
  | cons e rest ih => simp [Expr.sitesList, ih]

/-- The sites of statements are listed in order. -/
theorem Stmt.sitesList_append (before after : List Stmt) :
    Stmt.sitesList (before ++ after) =
      Stmt.sitesList before ++ Stmt.sitesList after := by
  induction before with
  | nil => rfl
  | cons stmt rest ih => simp [Stmt.sitesList, ih]

/-! ### Inside function literals -/

/-- The node and, of a function literal, all nodes of its body. -/
def Node.deep : Node → List Node
  | .expr (.func params returns body span) => .expr (.func params returns body span) :: body.nodes
  | node => [node]

/-- The nodes of the sites and all nodes inside the function literals among them. -/
def Site.deep (sites : List Site) : List Node := sites.flatMap fun site => site.node.deep

namespace Site

variable {site : Site} {sites rest : List Site}

@[simp] theorem deep_nil : deep [] = [] := rfl

@[simp] theorem deep_cons : deep (site :: rest) = site.node.deep ++ deep rest := rfl

@[simp] theorem deep_append : deep (sites ++ rest) = deep sites ++ deep rest :=
  List.flatMap_append

@[simp] theorem deep_spreadIf (allowed : Bool) : deep (spreadIf allowed sites) = deep sites := by
  cases sites <;> rfl

end Site

mutual
/-- The nodes of an expression are those of its sites, at any depth. -/
theorem Expr.nodes_eq : ∀ e : Expr, e.nodes = Site.deep e.sites
  | .ident _ _ => rfl
  | .lit _ _ => rfl
  | .ofType _ _ => rfl
  | .call callee args _ => by
    simp [Expr.sites, Expr.nodes, Node.deep, Expr.nodes_eq callee, Expr.nodesList_eq args]
  | .template segments _ => by
    simp [Expr.sites, Expr.nodes, Node.deep, Segment.nodesList_eq segments]
  | .attempt operand _ => by simp [Expr.sites, Expr.nodes, Node.deep, Expr.nodes_eq operand]
  | .binary _ left right _ => by
    simp [Expr.sites, Expr.nodes, Node.deep, Expr.nodes_eq left, Expr.nodes_eq right]
  | .unary _ operand _ => by simp [Expr.sites, Expr.nodes, Node.deep, Expr.nodes_eq operand]
  | .selector base _ _ => by simp [Expr.sites, Expr.nodes, Node.deep, Expr.nodes_eq base]
  | .index base index _ => by
    simp [Expr.sites, Expr.nodes, Node.deep, Expr.nodes_eq base, Expr.nodes_eq index]
  | .composite _ elements _ => by
    simp [Expr.sites, Expr.nodes, Node.deep, Element.nodesList_eq elements]
  | .func _ _ _ _ => by simp [Expr.sites, Expr.nodes, Node.deep]

theorem Expr.nodesList_eq :
    ∀ es : List Expr, Expr.nodesList es = Site.deep (Expr.sitesList es)
  | [] => rfl
  | e :: rest => by
    simp [Expr.sitesList, Expr.nodesList, Expr.nodes_eq e, Expr.nodesList_eq rest]

theorem Expr.nodesOption_eq :
    ∀ e : Option Expr, Expr.nodesOption e = Site.deep (Expr.sitesOption e)
  | none => rfl
  | some e => Expr.nodes_eq e

theorem Segment.nodesList_eq :
    ∀ segments : List Segment, Segment.nodesList segments = Site.deep (Segment.sitesList segments)
  | [] => rfl
  | .text _ :: rest => Segment.nodesList_eq rest
  | .embed value _ _ :: rest => by
    simp [Segment.sitesList, Segment.nodesList, Expr.nodes_eq value, Segment.nodesList_eq rest]

theorem Element.nodesList_eq :
    ∀ elements : List Element, Element.nodesList elements = Site.deep (Element.sitesList elements)
  | [] => rfl
  | ⟨key, value⟩ :: rest => by
    simp [Element.sitesList, Element.nodesList, Expr.nodesOption_eq key, Expr.nodes_eq value,
      Element.nodesList_eq rest]

theorem Block.nodes_eq : ∀ block : Block, block.nodes = Site.deep block.sites
  | ⟨stmts, _⟩ => Stmt.nodesList_eq stmts

theorem Stmt.nodesList_eq :
    ∀ stmts : List Stmt, Stmt.nodesList stmts = Site.deep (Stmt.sitesList stmts)
  | [] => rfl
  | stmt :: rest => by
    simp [Stmt.sitesList, Stmt.nodesList, Stmt.nodes_eq stmt, Stmt.nodesList_eq rest]

theorem Stmt.nodes_eq : ∀ stmt : Stmt, stmt.nodes = Site.deep stmt.sites
  | .var _ _ values _ => by simp [Stmt.sites, Stmt.nodes, Node.deep, Expr.nodesList_eq values]
  | .assign targets _ values _ => by
    simp [Stmt.sites, Stmt.nodes, Node.deep, Expr.nodesList_eq targets, Expr.nodesList_eq values]
  | .expr value => by simp [Stmt.sites, Stmt.nodes, Node.deep, Expr.nodes_eq value]
  | .ret values _ => by simp [Stmt.sites, Stmt.nodes, Node.deep, Expr.nodesList_eq values]
  | .cond branch => by simp [Stmt.sites, Stmt.nodes, Node.deep, If.nodes_eq branch]
  | .loop clause body _ => by
    simp [Stmt.sites, Stmt.nodes, Node.deep, Clause.nodes_eq clause, Block.nodes_eq body]
  | .throw value _ => by simp [Stmt.sites, Stmt.nodes, Node.deep, Expr.nodes_eq value]
  | .bind _ call _ => by simp [Stmt.sites, Stmt.nodes, Node.deep, Expr.nodes_eq call]
  | .go call _ => by simp [Stmt.sites, Stmt.nodes, Node.deep, Expr.nodes_eq call]
  | .defer call _ => by simp [Stmt.sites, Stmt.nodes, Node.deep, Expr.nodes_eq call]
  | .breakLoop _ => rfl
  | .continueLoop _ => rfl
  | .block body => by simp [Stmt.sites, Stmt.nodes, Node.deep, Block.nodes_eq body]

theorem Stmt.nodesOption_eq :
    ∀ stmt : Option Stmt, Stmt.nodesOption stmt = Site.deep (Stmt.sitesOption stmt)
  | none => rfl
  | some stmt => Stmt.nodes_eq stmt

theorem If.nodes_eq : ∀ branch : If, branch.nodes = Site.deep branch.sites
  | ⟨condition, thenBlock, otherwise, _⟩ => by
    simp [If.sites, If.nodes, Expr.nodes_eq condition, Block.nodes_eq thenBlock,
      Else.nodes_eq otherwise]

theorem Else.nodes_eq : ∀ otherwise : Else, otherwise.nodes = Site.deep otherwise.sites
  | .none => rfl
  | .block body => Block.nodes_eq body
  | .elseIf branch => If.nodes_eq branch

theorem Clause.nodes_eq : ∀ clause : Clause, clause.nodes = Site.deep clause.sites
  | .infinite => rfl
  | .condition test => Expr.nodes_eq test
  | .three first condition post => by
    simp [Clause.sites, Clause.nodes, Stmt.nodesOption_eq first, Expr.nodesOption_eq condition,
      Stmt.nodesOption_eq post]
  | .range _ _ _ source => Expr.nodes_eq source
end

/-! ### The walk outside function literals -/

/-- The node is a `try`. -/
def Node.isAttempt : Node → Bool
  | .expr e => e.isAttempt
  | .stmt _ => false

mutual
/-- The expressions that a walk outside function literals visits are those that have a site. -/
theorem Expr.mem_visit_sites (x : Expr) :
    ∀ e : Expr, x ∈ e.visit Expr.outsideFuncs ↔ .expr x ∈ e.sites.map Site.node
  | .ident _ _ => by simp [Expr.visit, Expr.sites]
  | .lit _ _ => by simp [Expr.visit, Expr.sites]
  | .ofType _ _ => by simp [Expr.visit, Expr.sites]
  | .call callee args _ => by
    simp [Expr.visit, Expr.sites, visited, Expr.outsideFuncs, Expr.isFunc, Expr.mem_visit_sites x
      callee,
      Expr.mem_visitList_sites x args]
  | .template segments _ => by
    simp [Expr.visit, Expr.sites, visited, Expr.outsideFuncs, Expr.isFunc,
      Segment.mem_visitList_sites x segments]
  | .attempt operand _ => by
    simp [Expr.visit, Expr.sites, visited, Expr.outsideFuncs, Expr.isFunc, Expr.mem_visit_sites x
      operand]
  | .binary _ left right _ => by
    simp [Expr.visit, Expr.sites, visited, Expr.outsideFuncs, Expr.isFunc, Expr.mem_visit_sites x
      left,
      Expr.mem_visit_sites x right]
  | .unary _ operand _ => by
    simp [Expr.visit, Expr.sites, visited, Expr.outsideFuncs, Expr.isFunc, Expr.mem_visit_sites x
      operand]
  | .selector base _ _ => by
    simp [Expr.visit, Expr.sites, visited, Expr.outsideFuncs, Expr.isFunc, Expr.mem_visit_sites x
      base]
  | .index base index _ => by
    simp [Expr.visit, Expr.sites, visited, Expr.outsideFuncs, Expr.isFunc, Expr.mem_visit_sites x
      base,
      Expr.mem_visit_sites x index]
  | .composite _ elements _ => by
    simp [Expr.visit, Expr.sites, visited, Expr.outsideFuncs, Expr.isFunc,
      Element.mem_visitList_sites x elements]
  | .func _ _ _ _ => by simp [Expr.visit, Expr.sites, visited, Expr.outsideFuncs, Expr.isFunc]

theorem Expr.mem_visitList_sites (x : Expr) : ∀ es : List Expr,
    x ∈ Expr.visitList Expr.outsideFuncs es ↔ .expr x ∈ (Expr.sitesList es).map Site.node
  | [] => by simp [Expr.visitList, Expr.sitesList]
  | e :: rest => by
    simp [Expr.visitList, Expr.sitesList, Expr.mem_visit_sites x e,
      Expr.mem_visitList_sites x rest]

theorem Expr.mem_visitOption_sites (x : Expr) : ∀ e : Option Expr,
    x ∈ Expr.visitOption Expr.outsideFuncs e ↔ .expr x ∈ (Expr.sitesOption e).map Site.node
  | none => by simp [Expr.visitOption, Expr.sitesOption]
  | some e => Expr.mem_visit_sites x e

theorem Segment.mem_visitList_sites (x : Expr) : ∀ segments : List Segment,
    x ∈ Segment.visitList Expr.outsideFuncs segments ↔
      .expr x ∈ (Segment.sitesList segments).map Site.node
  | [] => by simp [Segment.visitList, Segment.sitesList]
  | .text _ :: rest => Segment.mem_visitList_sites x rest
  | .embed value _ _ :: rest => by
    simp [Segment.visitList, Segment.sitesList, Expr.mem_visit_sites x value,
      Segment.mem_visitList_sites x rest]

theorem Element.mem_visitList_sites (x : Expr) : ∀ elements : List Element,
    x ∈ Element.visitList Expr.outsideFuncs elements ↔
      .expr x ∈ (Element.sitesList elements).map Site.node
  | [] => by simp [Element.visitList, Element.sitesList]
  | ⟨key, value⟩ :: rest => by
    simp [Element.visitList, Element.sitesList, Expr.mem_visitOption_sites x key,
      Expr.mem_visit_sites x value, Element.mem_visitList_sites x rest]

theorem Block.mem_visit_sites (x : Expr) : ∀ block : Block,
    x ∈ block.visit Expr.outsideFuncs ↔ .expr x ∈ block.sites.map Site.node
  | ⟨stmts, _⟩ => Stmt.mem_visitList_sites x stmts

theorem Stmt.mem_visitList_sites (x : Expr) : ∀ stmts : List Stmt,
    x ∈ Stmt.visitList Expr.outsideFuncs stmts ↔
      .expr x ∈ (Stmt.sitesList stmts).map Site.node
  | [] => by simp [Stmt.visitList, Stmt.sitesList]
  | stmt :: rest => by
    simp [Stmt.visitList, Stmt.sitesList, Stmt.mem_visit_sites x stmt,
      Stmt.mem_visitList_sites x rest]

theorem Stmt.mem_visit_sites (x : Expr) : ∀ stmt : Stmt,
    x ∈ stmt.visit Expr.outsideFuncs ↔ .expr x ∈ stmt.sites.map Site.node
  | .var _ _ values _ => by
    rw [Stmt.visit, Expr.mem_visitList_sites x values, Stmt.sites]
    simp
  | .assign targets _ values _ => by
    rw [Stmt.visit, List.mem_append, Expr.mem_visitList_sites x targets,
      Expr.mem_visitList_sites x values, Stmt.sites]
    simp
  | .expr value => by
    rw [Stmt.visit, Expr.mem_visit_sites x value, Stmt.sites]
    simp
  | .ret values _ => by
    rw [Stmt.visit, Expr.mem_visitList_sites x values, Stmt.sites]
    simp
  | .cond branch => by simp [Stmt.visit, Stmt.sites, If.mem_visit_sites x branch]
  | .loop clause body _ => by
    simp [Stmt.visit, Stmt.sites, Clause.mem_visit_sites x clause, Block.mem_visit_sites x body]
  | .throw value _ => by simp [Stmt.visit, Stmt.sites, Expr.mem_visit_sites x value]
  | .bind _ call _ => by simp [Stmt.visit, Stmt.sites, Expr.mem_visit_sites x call]
  | .go call _ => by simp [Stmt.visit, Stmt.sites, Expr.mem_visit_sites x call]
  | .defer call _ => by simp [Stmt.visit, Stmt.sites, Expr.mem_visit_sites x call]
  | .breakLoop _ => by simp [Stmt.visit, Stmt.sites]
  | .continueLoop _ => by simp [Stmt.visit, Stmt.sites]
  | .block body => by simp [Stmt.visit, Stmt.sites, Block.mem_visit_sites x body]

theorem Stmt.mem_visitOption_sites (x : Expr) : ∀ stmt : Option Stmt,
    x ∈ Stmt.visitOption Expr.outsideFuncs stmt ↔
      .expr x ∈ (Stmt.sitesOption stmt).map Site.node
  | none => by simp [Stmt.visitOption, Stmt.sitesOption]
  | some stmt => Stmt.mem_visit_sites x stmt

theorem If.mem_visit_sites (x : Expr) : ∀ branch : If,
    x ∈ branch.visit Expr.outsideFuncs ↔ .expr x ∈ branch.sites.map Site.node
  | ⟨condition, thenBlock, otherwise, _⟩ => by
    simp [If.visit, If.sites, Expr.mem_visit_sites x condition, Block.mem_visit_sites x thenBlock,
      Else.mem_visit_sites x otherwise]

theorem Else.mem_visit_sites (x : Expr) : ∀ otherwise : Else,
    x ∈ otherwise.visit Expr.outsideFuncs ↔ .expr x ∈ otherwise.sites.map Site.node
  | .none => by simp [Else.visit, Else.sites]
  | .block body => Block.mem_visit_sites x body
  | .elseIf branch => If.mem_visit_sites x branch

theorem Clause.mem_visit_sites (x : Expr) : ∀ clause : Clause,
    x ∈ clause.visit Expr.outsideFuncs ↔ .expr x ∈ clause.sites.map Site.node
  | .infinite => by simp [Clause.visit, Clause.sites]
  | .condition test => Expr.mem_visit_sites x test
  | .three first condition post => by
    simp [Clause.visit, Clause.sites, Stmt.mem_visitOption_sites x first,
      Expr.mem_visitOption_sites x condition, Stmt.mem_visitOption_sites x post]
  | .range _ _ _ source => Expr.mem_visit_sites x source
end

/-- Sites of nodes other than a `try` are those of expressions of which none is one. -/
theorem isAttempt_sites {sites : List Site} {es : List Expr}
    (h : ∀ x, x ∈ es ↔ .expr x ∈ sites.map Site.node) (hes : es.any Expr.isAttempt = false)
    {site : Site} (hsite : site ∈ sites) : site.node.isAttempt = false := by
  cases hnode : site.node with
  | stmt _ => rfl
  | expr x =>
    have hx : x ∈ es := (h x).mpr (List.mem_map.mpr ⟨site, hsite, hnode⟩)
    exact Bool.eq_false_iff.mpr (List.any_eq_false.mp hes x hx)

/-- If no `try` is found in an expression, there is none at its sites. -/
theorem Expr.isAttempt_sites {e : Expr} (h : e.containsAttempt = false) :
    ∀ site ∈ e.sites, site.node.isAttempt = false :=
  fun _ => Desugar.isAttempt_sites (fun x => Expr.mem_visit_sites x e) h

/-- If no `try` is found in a statement, there is none at its sites. -/
theorem Stmt.isAttempt_sites {stmt : Stmt} (h : stmt.containsAttempt = false) :
    ∀ site ∈ stmt.sites, site.node.isAttempt = false :=
  fun _ => Desugar.isAttempt_sites (fun x => Stmt.mem_visit_sites x stmt) h

end Desugar
