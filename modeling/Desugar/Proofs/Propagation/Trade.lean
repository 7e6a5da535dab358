import Mathlib.Algebra.Order.Group.Multiset
import Mathlib.Data.Multiset.Bind
import Desugar.Proofs.Propagation.Names
import Desugar.Proofs.Tree.Sites

/-!
# What becomes of the nodes of a function

Error propagation moves operands into code ahead of their statement, behind guards and into
temporaries, so the lowered body has another form than the source. But each node has its fate: most
are kept or replaced by others of no consequence, a call stays a call of the same function, a
function literal stays a literal whose body is lowered in its own frame, and `throw`, `try` and
`return` become returns. `Trade` says what may take the place of what, as a relation between bags of
nodes: nothing that it does not mention is lost, copied or made up.

- `Node.isMarked`: the nodes that are accounted for.
- `Site.IsDisciplined`: what is checked of a node of the source before it is traded.
- `Trade`: the fates of nodes.
-/

namespace Desugar

/-! ### Marked nodes -/

/-- The node runs something, is a function literal, or leaves the function. -/
def Node.isMarked : Node → Bool
  | .expr (.call _ _ _) | .expr (.unary .receive _ _) | .expr (.func _ _ _ _) => true
  | .expr (.attempt _ _) | .stmt (.throw _ _) | .stmt (.ret _ _) => true
  | _ => false

/-- Of the operators before an operand, only a receive is marked. -/
theorem Node.isMarked_unary {op : UnaryOp} (h : op ≠ .receive) (operand : Expr) (span : Span) :
    (Node.expr (.unary op operand span)).isMarked = false := by
  cases op with
  | receive => exact absurd rfl h
  | _ => rfl

/-- A node that is not marked is no function literal, so there is nothing inside it. -/
theorem Node.deep_of_not_isMarked {node : Node} (h : node.isMarked = false) :
    node.deep = [node] := by
  cases node with
  | stmt _ => rfl
  | expr e =>
    cases e with
    | func => cases h
    | _ => rfl

namespace Site

/-- The marked nodes of a list of sites, in any order. -/
def marked (sites : List Site) : Multiset Node := (sites.map node).filter Node.isMarked

variable {site : Site} {sites rest : List Site}

@[simp] theorem marked_nil : marked [] = 0 := rfl

@[simp] theorem marked_cons : marked (site :: rest) =
    (if site.node.isMarked then {site.node} else 0) + marked rest := by
  cases h : site.node.isMarked <;> simp [marked, h]

@[simp] theorem marked_append : marked (sites ++ rest) = marked sites + marked rest := by
  simp [marked]

@[simp] theorem marked_spreadIf (allowed : Bool) :
    marked (spreadIf allowed sites) = marked sites := by
  simp [marked]

end Site

/-! ### Nodes at any depth -/

/-- The node, if it is of a kind, and all nodes of the kind inside it, if it is a literal. -/
def Node.inside (p : Node → Bool) (node : Node) : Multiset Node := node.deep.filter p

/-- The nodes of a kind at or inside some sites. -/
def Site.inside (p : Node → Bool) (sites : Multiset Site) : Multiset Node :=
  sites.bind fun site => site.node.inside p

section Inside

variable {p : Node → Bool}

theorem Node.eq_false_of_not_isMarked {node : Node} (hp : p node = true → node.isMarked = true)
    (h : node.isMarked = false) : p node = false := by
  by_contra hne
  rw [hp (by simpa using hne)] at h
  cases h

/-- A node that is not marked has nothing of a marked kind at it or inside it. -/
theorem Node.inside_of_not_isMarked {node : Node} (hp : p node = true → node.isMarked = true)
    (h : node.isMarked = false) : node.inside p = 0 := by
  have hnode : p node = false := Node.eq_false_of_not_isMarked hp h
  rw [Node.inside, Node.deep_of_not_isMarked h, List.filter_cons_of_neg (by simp [hnode])]
  rfl

/-- The nodes of a kind in a body are those at or inside its sites. -/
theorem Block.filter_nodes (p : Node → Bool) (body : Block) :
    (body.nodes.filter p : Multiset Node) = Site.inside p body.sites := by
  rw [Block.nodes_eq, Site.deep, List.filter_flatMap]
  exact (Multiset.coe_bind body.sites _).symm

/-- If all nodes of the kind are marked, it is enough to look at the marked nodes. -/
theorem Block.filter_nodes_marked (hp : ∀ node : Node, p node = true → node.isMarked = true)
    (body : Block) :
    (body.nodes.filter p : Multiset Node) = (Site.marked body.sites).bind (Node.inside p) := by
  have hsites (sites : List Site) :
      Site.inside p sites = (Site.marked sites).bind (Node.inside p) := by
    induction sites with
    | nil => rfl
    | cons site rest ih =>
      rw [Site.inside] at ih ⊢
      rw [← Multiset.cons_coe, Multiset.cons_bind, ih, Site.marked_cons, Multiset.add_bind]
      by_cases h : site.node.isMarked = true
      · rw [if_pos h, Multiset.singleton_bind]
      · rw [if_neg h, Multiset.zero_bind,
          Node.inside_of_not_isMarked (hp _) (Bool.eq_false_iff.mpr h)]
  rw [Block.filter_nodes, hsites]

end Inside

/-! ### The result discipline -/

/-- The expression is a call of a function of the unit that may fail. -/
def Scope.Fails (scope : Scope) (e : Expr) (sig : Signature) : Prop :=
  ∃ callee args span, e = .call callee args span ∧ scope.resolve? callee = some sig ∧
    sig.isResult = true

/-- The sites of the parts of a loop header that are evaluated again for every iteration. -/
def Clause.repeated : Clause → List Site
  | .condition test => test.sites
  | .three _ test post => Expr.sitesOption test ++ Stmt.sitesOption post
  | .infinite | .range _ _ _ _ => []

/-- No error is dropped at the site, in a function that returns a result if `result` holds: `throw`
and `try` have a result to return, `try` is applied to a call that may fail, with a single value
unless several may stand here, and the values of such a call, error included, have targets. -/
def Site.IsDisciplined (scope : Scope) (result : Bool) (site : Site) : Prop :=
  match site.node with
  | .stmt (.throw _ _) => result = true
  | .expr (.attempt operand _) => result = true ∧
    ∃ sig, scope.Fails operand sig ∧ (site.spread = false → sig.values.length = 1)
  | .stmt (.expr call) | .stmt (.go call _) | .stmt (.defer call _) => ∀ sig, ¬scope.Fails call sig
  | .stmt (.assign targets _ [value] _) =>
    ∀ sig, scope.Fails value sig → sig.slotCount ≤ targets.length
  | .stmt (.var names _ [value] _) => ∀ sig, scope.Fails value sig → sig.slotCount ≤ names.length
  | .stmt (.loop clause _ _) => ∀ again ∈ clause.repeated, again.node.isAttempt = false
  | _ => True

namespace Site

variable {scope : Scope} {result : Bool} {values : List Expr} {span : Span}

/-- An assignment keeps the rules if a single call that may fail has enough targets. -/
theorem isDisciplined_assign {targets : List Expr} {op : AssignOp}
    (h : ∀ value sig, values = [value] → scope.Fails value sig → sig.slotCount ≤ targets.length) :
    IsDisciplined scope result ⟨.stmt (.assign targets op values span), false⟩ := by
  match values, h with
  | [value], h => exact fun sig => h value sig rfl
  | [], _ | _ :: _ :: _, _ => trivial

/-- A declaration keeps the rules if the error of a call has a variable. -/
theorem isDisciplined_var {names : List Ident} {ty : Option Ty}
    (h : ∀ value sig, values = [value] → scope.Fails value sig → sig.slotCount ≤ names.length) :
    IsDisciplined scope result ⟨.stmt (.var names ty values span), false⟩ := by
  match values, h with
  | [value], h => exact fun sig => h value sig rfl
  | [], _ | _ :: _ :: _, _ => trivial

end Site

namespace Propagation

/-! ### Fates -/

/-- The values that a lowered return gives in a frame that returns a result: one for each value of
the frame and an error, or those of a single call that may fail. -/
def Frame.Returns (scope : Scope) (frame : Frame) (values : List Expr) : Prop :=
  frame.isResult = true → values.length = frame.valueCount + 1 ∨
    ∃ call sig, values = [call] ∧ scope.Fails call sig ∧ sig.values.length = frame.valueCount

/-- What is left of an operand once it is lowered, as far as it matters for calling it: a function
of the unit and a name stay, and a name that is not that of the operand is made up. -/
structure Residual (cx : Context) (first : NameSupply) (e e' : Expr) : Prop where
  resolved : ∀ sig, cx.resolve? e = some sig → e' = e
  ident : ∀ x span, e = .ident x span → e' = e
  named : ∀ x span, e' = .ident x span → e = .ident x span ∨ MakesUp first x

/-- The functions that inserted code calls. -/
def helpers (settings : Settings) : List Expr :=
  [Expr.name "new", Path.reference settings.errorConstructor,
    Path.reference settings.errorFormatFunction]

/-- The marked nodes that take the place of the nodes at some sites of a function. -/
inductive Trade (cx : Context) (first : NameSupply) :
    Frame → Multiset Site → Multiset Node → Prop
  | none {frame : Frame} : Trade cx first frame 0 0
  | both {frame : Frame} {sites sites' : Multiset Site} {nodes nodes' : Multiset Node} :
    Trade cx first frame sites nodes → Trade cx first frame sites' nodes' →
      Trade cx first frame (sites + sites') (nodes + nodes')
  /-- A node of no consequence. -/
  | plain {frame : Frame} {site : Site} : site.node.isMarked = false →
    site.IsDisciplined cx.toScope frame.isResult → Trade cx first frame {site} 0
  /-- A call that is inserted. -/
  | helper {frame : Frame} {callee : Expr} {args : List Expr} {span : Span} :
    callee ∈ helpers cx.settings → Trade cx first frame 0 {.expr (.call callee args span)}
  | receive {frame : Frame} {operand operand' : Expr} {span : Span} {spread : Bool} :
    Trade cx first frame {⟨.expr (.unary .receive operand span), spread⟩}
      {.expr (.unary .receive operand' span)}
  | call {frame : Frame} {callee callee' : Expr} {args args' : List Expr} {span : Span}
      {spread : Bool} : Residual cx first callee callee' →
    Trade cx first frame {⟨.expr (.call callee args span), spread⟩}
      {.expr (.call callee' args' span)}
  /-- A function literal, lowered in the frame of its own return clause. -/
  | literal {frame : Frame} {params : List Param} {returns : Option Ty} {shape : ReturnShape}
      {name : String} {body body' : Block} {span : Span} {spread : Bool} :
    ReturnShape.ofClause cx.settings.optionPolicy returns = .ok shape →
    Trade cx first (.ofShape cx.table name shape) body.sites (Site.marked body'.sites) →
    Trade cx first frame {⟨.expr (.func params returns body span), spread⟩}
      {.expr (.func params shape.clause body' span)}
  | attempt {frame : Frame} {operand error : Expr} {sig : Signature} {span : Span}
      {spread : Bool} : frame.isResult = true → cx.Fails operand sig →
    (spread = false → sig.values.length = 1) →
    Trade cx first frame {⟨.expr (.attempt operand span), spread⟩}
      {.stmt (frame.earlyReturn error span)}
  | throw {frame : Frame} {value error : Expr} {span : Span} : frame.isResult = true →
    Trade cx first frame {⟨.stmt (.throw value span), false⟩}
      {.stmt (frame.earlyReturn error span)}
  | ret {frame : Frame} {values values' : List Expr} {span : Span} :
    frame.Returns cx.toScope values' →
    Trade cx first frame {⟨.stmt (.ret values span), false⟩} {.stmt (.ret values' span)}

namespace Trade

variable {cx : Context} {first : NameSupply} {frame : Frame}
  {sites sites' : Multiset Site} {nodes nodes' : Multiset Node}

/-- Both sides are bags, so their order is of no importance. -/
theorem congr (h : Trade cx first frame sites nodes) (hsites : sites' = sites)
    (hnodes : nodes' = nodes) : Trade cx first frame sites' nodes' := by
  rw [hsites, hnodes]
  exact h

/-- A node of no consequence ahead of its parts. -/
theorem cons_plain (h : Trade cx first frame sites nodes) (site : Site)
    (hplain : site.node.isMarked = false)
    (hsite : site.IsDisciplined cx.toScope frame.isResult) :
    Trade cx first frame (site ::ₘ sites) nodes :=
  ((plain hplain hsite).both h).congr (Multiset.singleton_add _ _).symm (zero_add _).symm

end Trade

end Propagation

end Desugar
