import Desugar.Proofs.Propagation.Account

/-!
# No call is lost or copied

Operands move into hoisted statements, behind guards and into temporaries, and some code that the
pass collects is dropped again. Still the lowered body has as many calls of each name as the source,
and as many receives, counted at any depth. What the pass inserts are calls of `new`, of the error
constructor and of the error formatter; and a callee that is not a name may be kept in a made-up
name, which is then called.

- `propagateErrors_calls`: the calls and receives of a lowered function.
- `propagateErrors_calls_madeUp`: a made-up name may be called although the source does not call it.
-/

namespace Desugar

/-- The node is a call of a name. -/
def Node.isCallOf (name : String) : Node → Bool
  | .expr (.call (.ident callee _) _ _) => callee == name
  | _ => false

/-- The node is a receive from a channel. -/
def Node.isReceive : Node → Bool
  | .expr (.unary .receive _ _) => true
  | _ => false

/-- The node runs something. -/
def Node.isEffect : Node → Bool
  | .expr e => e.isEffect
  | .stmt _ => false

/-- What runs something is marked. -/
theorem Node.isMarked_of_isEffect {node : Node} (h : node.isEffect = true) :
    node.isMarked = true := by
  match node, h with
  | .expr (.call _ _ _), _ | .expr (.unary .receive _ _), _ => rfl

/-- A call runs something. -/
theorem Node.isEffect_of_isCallOf {name : String} {node : Node} (h : node.isCallOf name = true) :
    node.isEffect = true := by
  match node, h with
  | .expr (.call (.ident _ _) _ _), _ => rfl

/-- A receive runs something. -/
theorem Node.isEffect_of_isReceive {node : Node} (h : node.isReceive = true) :
    node.isEffect = true := by
  match node, h with
  | .expr (.unary .receive _ _), _ => rfl

/-! ### Names that paths consist of -/

namespace Path

/-- A path has at least one part. -/
theorem parts_ne_nil (separator : Char) (cs : List Char) : parts separator cs ≠ [] := by
  cases cs with
  | nil => simp [parts]
  | cons c cs =>
    unfold parts
    split
    · simp
    · split <;> simp

/-- A path with one part is that part. -/
theorem eq_of_parts_eq_singleton {separator : Char} {cs part : List Char}
    (h : parts separator cs = [part]) : cs = part := by
  induction cs generalizing part with
  | nil => simpa [parts] using h
  | cons c cs ih =>
    unfold parts at h
    split at h
    · exact absurd (List.cons.inj h).2 (parts_ne_nil separator cs)
    · split at h
      · rename_i hnil
        exact absurd hnil (parts_ne_nil separator cs)
      · rename_i part' rest hparts
        obtain ⟨rfl, rfl⟩ := List.cons.inj h
        rw [ih hparts]

/-- A path that refers to a plain name is this name. -/
theorem eq_of_reference_eq_ident {path x : String} {span : Span}
    (h : reference path = .ident x span) : x = path := by
  have hmember (rest : List (List Char)) (base : Expr) (hbase : ∀ y s, base ≠ .ident y s) :
      rest.foldl (fun base part => base.member (String.ofList part)) base ≠ .ident x span := by
    induction rest generalizing base with
    | nil => exact hbase x span
    | cons part rest ih => exact ih _ nofun
  unfold reference at h
  split at h
  · rename_i hnil
    exact absurd hnil (parts_ne_nil '.' path.toList)
  · rename_i part rest hparts
    cases rest with
    | nil =>
      rw [← String.ofList_toList (s := path), eq_of_parts_eq_singleton hparts]
      exact (Expr.ident.inj h).1.symm
    | cons next rest => exact absurd h (hmember rest _ nofun)

end Path

namespace Propagation

variable {cx : Context} {first : NameSupply} {frame : Frame} {sites : Multiset Site}
  {nodes : Multiset Node}

/-! ### Counting -/

/-- What is no function literal counts for itself. -/
theorem card_inside {p : Node → Bool} {node : Node} (h : node.deep = [node]) :
    (node.inside p).card = if p node then 1 else 0 := by
  rw [Node.inside, h]
  by_cases hp : p node = true
  · simp [hp]
  · simp [hp]

/-- If nodes of a kind are kept and none is inserted, then there are as many of them after a
trade. -/
theorem Trade.card_inside_eq {p : Node → Bool} (hp : ∀ node, p node = true → node.isEffect = true)
    (hhelper : ∀ callee args span, callee ∈ helpers cx.settings →
      p (.expr (.call callee args span)) = false)
    (hreceive : ∀ operand operand' span, p (.expr (.unary .receive operand span)) =
      p (.expr (.unary .receive operand' span)))
    (hcall : ∀ callee callee' args args' span, Residual cx first callee callee' →
      p (.expr (.call callee args span)) = p (.expr (.call callee' args' span)))
    (h : Trade cx first frame sites nodes) :
    (nodes.bind (Node.inside p)).card = (Site.inside p sites).card := by
  have hmarked (node : Node) (h : p node = true) : node.isMarked = true :=
    Node.isMarked_of_isEffect (hp node h)
  have hnot (node : Node) (h : node.isEffect = false) : p node = false := by
    by_contra hne
    rw [hp node (by simpa using hne)] at h
    cases h
  induction h with
  | none => rfl
  | both _ _ ih ih' =>
    rw [Site.inside, Multiset.add_bind, Multiset.add_bind, Multiset.card_add, Multiset.card_add, ih,
      ih']
    rfl
  | plain hplain _ =>
    rw [Site.inside, Multiset.singleton_bind, Node.inside_of_not_isMarked (hmarked _) hplain]
    rfl
  | helper hcallee =>
    rw [Multiset.singleton_bind, card_inside rfl, hhelper _ _ _ hcallee]
    rfl
  | receive =>
    rw [Site.inside, Multiset.singleton_bind, Multiset.singleton_bind, card_inside rfl,
      card_inside rfl, hreceive]
  | call hres =>
    rw [Site.inside, Multiset.singleton_bind, Multiset.singleton_bind, card_inside rfl,
      card_inside rfl, hcall _ _ _ _ _ hres]
  | @literal frame params returns shape name body body' span spread hshape hbody ih =>
    rw [← Block.filter_nodes, ← Block.filter_nodes_marked hmarked] at ih
    have hinside (returns : Option Ty) (body : Block) :
        (Node.expr (.func params returns body span)).inside p = body.nodes.filter p := by
      rw [Node.inside, Node.deep, List.filter_cons_of_neg
        (by simp [hnot (.expr (.func params returns body span)) rfl])]
    rw [Site.inside, Multiset.singleton_bind, Multiset.singleton_bind, hinside, hinside, ih]
  | attempt _ _ _ | throw _ | ret _ =>
    rw [Site.inside, Multiset.singleton_bind, Multiset.singleton_bind, card_inside rfl,
      card_inside rfl, hnot _ rfl, hnot _ rfl]

/-- A callee that is lowered is the same name as before, or none that the function uses. -/
theorem Residual.isCallOf_eq {name : String} (hname : ¬MakesUp first name) {callee callee' : Expr}
    (h : Residual cx first callee callee') (args args' : List Expr) (span : Span) :
    (Node.expr (.call callee args span)).isCallOf name =
      (Node.expr (.call callee' args' span)).isCallOf name := by
  by_cases hident : ∃ x s, callee = .ident x s
  · obtain ⟨x, s, rfl⟩ := hident
    rw [h.ident x s rfl]
    rfl
  · have hbefore : (Node.expr (.call callee args span)).isCallOf name = false := by
      cases callee with
      | ident x s => exact absurd ⟨x, s, rfl⟩ hident
      | _ => rfl
    rw [hbefore]
    cases callee' with
    | ident x s =>
      rcases h.named x s rfl with hsame | hmade
      · exact absurd ⟨x, s, hsame⟩ hident
      · have hne : x ≠ name := fun heq => hname (heq ▸ hmade)
        exact (beq_eq_false_iff_ne.mpr hne).symm
    | _ => rfl

/-- A call that is inserted is no call of any other name. -/
theorem isCallOf_helper {settings : Settings} {name : String} (hnew : name ≠ "new")
    (hconstructor : name ≠ settings.errorConstructor)
    (hformat : name ≠ settings.errorFormatFunction) {callee : Expr}
    (h : callee ∈ helpers settings) (args : List Expr) (span : Span) :
    (Node.expr (.call callee args span)).isCallOf name = false := by
  cases callee with
  | ident x s =>
    have hne : x ≠ name := by
      rintro rfl
      simp only [helpers, List.mem_cons, List.not_mem_nil, or_false] at h
      rcases h with hcallee | hcallee | hcallee
      · exact hnew (Expr.ident.inj hcallee).1
      · exact hconstructor (Path.eq_of_reference_eq_ident hcallee.symm)
      · exact hformat (Path.eq_of_reference_eq_ident hcallee.symm)
    exact beq_eq_false_iff_ne.mpr hne
  | _ => rfl

end Propagation

open Propagation

/-- If error propagation accepts a unit, then the body of each function in it whose signature is
known has as many calls of every name as before, at any depth, and as many receives. Names that the
pass inserts calls of are left out, and so are those that it makes up in this function. -/
theorem propagateErrors_calls {table : SignatureTable} {settings : Settings}
    {program lowered : Program} (h : (propagateErrors table settings program).outcome = .ok lowered)
    {i : Nat} {f : Function} {sig : Signature} (hf : program.items[i]? = some (.func f))
    (hsig : table.get? f.key = some sig) :
    ∃ f', lowered.items[i]? = some (.func f') ∧
      (∀ name, name ≠ "new" → name ≠ settings.errorConstructor →
        name ≠ settings.errorFormatFunction → (MadeUp settings.stem name → name ∈ f.names) →
        f'.body.nodes.countP (Node.isCallOf name) = f.body.nodes.countP (Node.isCallOf name)) ∧
      f'.body.nodes.countP Node.isReceive = f.body.nodes.countP Node.isReceive := by
  obtain ⟨f', hf', hlowered⟩ := propagateErrors_lowered h hf hsig
  -- Nodes of the kind are counted at the sites on the one side, at marked nodes on the other.
  have hcount (p : Node → Bool) (hp : ∀ node, p node = true → node.isEffect = true)
      (hcard : (Site.inside p f.body.sites).card =
        ((Site.marked f'.body.sites).bind (Node.inside p)).card) :
      f'.body.nodes.countP p = f.body.nodes.countP p := by
    have hmarked (node : Node) (hnode : p node = true) : node.isMarked = true :=
      Node.isMarked_of_isEffect (hp node hnode)
    rw [List.countP_eq_length_filter, List.countP_eq_length_filter, ← Multiset.coe_card,
      ← Multiset.coe_card, Block.filter_nodes_marked hmarked, Block.filter_nodes, hcard]
  refine ⟨f', hf', ?_, ?_⟩
  · intro name hnew hconstructor hformat hmade
    have hname : ¬MakesUp (.avoiding settings.stem f.names) name :=
      fun hmakes => hmakes.1 (hmade hmakes.2)
    refine hcount _ (fun _ => Node.isEffect_of_isCallOf) (Trade.card_inside_eq
      (fun _ => Node.isEffect_of_isCallOf) ?_ (fun _ _ _ => rfl) ?_ hlowered.trade).symm
    · intro callee args span hcallee
      exact isCallOf_helper hnew hconstructor hformat hcallee args span
    · intro callee callee' args args' span hres
      exact hres.isCallOf_eq hname args args' span
  · refine hcount _ (fun _ => Node.isEffect_of_isReceive) (Trade.card_inside_eq
      (fun _ => Node.isEffect_of_isReceive) ?_ (fun _ _ _ => rfl) ?_ hlowered.trade).symm
    · exact fun _ _ _ _ => rfl
    · exact fun _ _ _ _ _ _ => rfl

/-- After error propagation, `poll` still calls `load` three times and receives once. -/
theorem propagateErrors_calls_poll :
    (propagateErrors pollTable {} pollUnit).outcome =
        .ok (propagateErrors pollTable {} pollUnit).value ∧
      pollUnit.items[0]? = some (.func poll) ∧
      pollTable.get? poll.key = some (resultSignature "poll" [.named "int"]) ∧
      ¬MadeUp "gx" "load" ∧
      ∃ f', (propagateErrors pollTable {} pollUnit).value.items[0]? = some (.func f') ∧
        f'.body.nodes.countP (Node.isCallOf "load") = 3 ∧
        f'.body.nodes.countP Node.isReceive = 1 := by
  have haccepted : (propagateErrors pollTable {} pollUnit).outcome =
      .ok (propagateErrors pollTable {} pollUnit).value := rfl
  have hsig : pollTable.get? poll.key = some (resultSignature "poll" [.named "int"]) := rfl
  have hpoll : pollUnit.items[0]? = some (.func poll) := rfl
  have hmade : ¬MadeUp "gx" "load" := not_madeUp (by decide)
  obtain ⟨f', hf', hcalls, hreceives⟩ := propagateErrors_calls haccepted hpoll hsig
  refine ⟨haccepted, hpoll, hsig, hmade, f', hf', ?_, ?_⟩
  · rw [hcalls "load" (by decide) (by decide) (by decide) fun h => absurd h hmade]
    rfl
  · rw [hreceives]
    rfl

/-- `func spin() Result<int> { return make()(try load()) }`. -/
def spin : Function where
  name := "spin"
  receiver := none
  params := []
  returns := some (.result (.named "int"))
  body := .inserted [.ret [.apply (.apply (.name "make") []) [attemptOf "load"]] .nowhere]

/-- The callee `make()` is kept in a made-up name ahead of the hoisted `load()`, so that the order
of the two calls stays, and the name is called. -/
theorem propagateErrors_calls_madeUp :
    let table : SignatureTable := { pollTable with
      functions := ("spin", resultSignature "spin" [.named "int"]) :: pollTable.functions }
    let unit : Program := { pollUnit with items := [.func spin] }
    ∃ f', (propagateErrors table {} unit).outcome = .ok { unit with items := [.func f'] } ∧
      table.get? spin.key = some (resultSignature "spin" [.named "int"]) ∧
      spin.body.nodes.countP (Node.isCallOf "gxTmp0") = 0 ∧
      f'.body.nodes.countP (Node.isCallOf "gxTmp0") = 1 :=
  ⟨_, rfl, rfl, rfl, rfl⟩

end Desugar
