import Desugar.Proofs.Dispatch.Complete
import Desugar.Proofs.Propagation.Complete
import Desugar.Proofs.Propagation.Survey
import Desugar.Proofs.Signature.Keys
import Desugar.Proofs.Tree.Names

/-!
# New names and names of the source

Error propagation and the lowering of go-bindings make up names, each from a supply of its own that
avoids the collected names of the function at hand. The second supply is set up after the first
pass, so it has to know the names of the source from what the first pass has left of it.

- `Function.Shows`, `Function.Hides`: where the names of a function are. Shown names are collected,
  names that are only hidden are not.
- `propagateErrors_keeps`: no collected name is lost in error propagation, and the names that it
  makes up are collected afterwards.
- `newNames_not_shown`: the names that both passes make up differ from each other and from all names
  that are shown. The lowered function has no other new names but a few that are inserted as they
  are.
- `newNames_hidden`: a name that is hidden can be made up once more, and an inserted name can be one
  that is shown.
-/

namespace Desugar

/-! ### The names of a function -/

namespace Function

/-- The function declares or mentions the name, at any depth and inside function literals. -/
def Has (f : Function) (x : String) : Prop :=
  (∃ param ∈ f.params, param.name = x) ∨ (∃ r ∈ f.receiver, r.name = x) ∨
    ∃ node ∈ f.body.nodes, x ∈ node.names

/-- The name is that of a parameter or of the receiver, an expression mentions it, or it is declared
by a statement outside function literals and loop headers. -/
def Shows (f : Function) (x : String) : Prop :=
  (∃ param ∈ f.params, param.name = x) ∨ (∃ r ∈ f.receiver, r.name = x) ∨
    (∃ step ∈ f.body.steps, x ∈ (Node.stmt step).names) ∨
      ∃ e, .expr e ∈ f.body.nodes ∧ x ∈ (Node.expr e).names

/-- The name is declared by a statement of a function literal or of a loop header. -/
def Hides (f : Function) (x : String) : Prop :=
  ∃ stmt, .stmt stmt ∈ f.body.nodes ∧ x ∈ (Node.stmt stmt).names ∧
    ((∃ body ∈ Node.literals f.body.nodes, stmt ∈ body.steps) ∨ stmt.InHeader f.body.nodes)

variable {f : Function} {x : String}

/-- The names of a function, as they are collected, are those that it shows. -/
theorem mem_names_iff_shows : x ∈ f.names ↔ f.Shows x := by
  simp [Function.mem_names_iff, Shows, Stmt.declaredIn, Node.mentioned]

/-- Each name is shown or hidden. -/
theorem has_iff : f.Has x ↔ f.Shows x ∨ f.Hides x := by
  constructor
  · rintro (hparam | hreceiver | ⟨node, hnode, hx⟩)
    · exact .inl (.inl hparam)
    · exact .inl (.inr (.inl hreceiver))
    · cases node with
      | expr e => exact .inl (.inr (.inr (.inr ⟨e, hnode, hx⟩)))
      | stmt stmt =>
        rcases f.body.placed stmt hnode with hstep | hplace
        · exact .inl (.inr (.inr (.inl ⟨stmt, hstep, hx⟩)))
        · exact .inr ⟨stmt, hnode, hx, hplace⟩
  · rintro ((hparam | hreceiver | ⟨step, hstep, hx⟩ | ⟨e, he, hx⟩) | ⟨stmt, hnode, hx, -⟩)
    · exact .inl hparam
    · exact .inr (.inl hreceiver)
    · exact .inr (.inr ⟨_, Block.mem_nodes_of_mem_steps f.body hstep, hx⟩)
    · exact .inr (.inr ⟨_, he, hx⟩)
    · exact .inr (.inr ⟨_, hnode, hx⟩)

/-- The names of a function do not depend on types. -/
theorem has_mapTypes {g : Ty → Ty} {f' : Function} (h : (Item.func f).mapTypes g = .func f') :
    f'.Has x ↔ f.Has x := by
  cases h
  simp [Has, Block.nodes_mapTypes, Node.names_mapTypes, Param.mapType]

/-- What a function has once its body is replaced by one whose names are accounted for. -/
theorem has_of_named {returns : Option Ty} {body : Block} {made inserted : List String}
    (hnamed : Within ((Node.Trait.named inserted).good
      (made ++ f.body.nodes.flatMap Node.names)) body.nodes)
    (h : ({ f with returns, body } : Function).Has x) : f.Has x ∨ x ∈ made ∨ x ∈ inserted := by
  rcases h with hparam | hreceiver | ⟨node, hnode, hx⟩
  · exact .inl (.inl hparam)
  · exact .inl (.inr (.inl hreceiver))
  · rcases Node.Trait.within_named.mp hnamed node hnode x hx with hknown | hinserted
    · rcases List.mem_append.mp hknown with hmade | hsource
      · exact .inr (.inl hmade)
      · exact .inl (.inr (.inr (List.mem_flatMap.mp hsource)))
    · exact .inr (.inr hinserted)

end Function

/-! ### The names that the passes make up -/

/-- The names that error propagation makes up in a function. -/
def Propagation.newNames (table : SignatureTable) (settings : Settings) (f : Function) :
    List String :=
  match table.get? f.key with
  | some sig =>
    let cx : Context := { Scope.ofFunction table f with settings }
    (lowerBlock cx (.ofShape table f.name sig.returns) f.body).drawn
      (.avoiding settings.stem f.names)
  | none => []

/-- The names that are made up for the go-bindings of a function. -/
def Dispatch.newNames (table : SignatureTable) (settings : Settings) (f : Function) :
    List String :=
  if f.body.hasBinding then
    let cx : Context := { Scope.ofFunction table f with settings }
    (redirectBlock cx [] f.body).drawn (.avoiding settings.stem f.names)
  else []

/-- The names that are made up for go-bindings are new and differ. -/
theorem Dispatch.newNames_spec {table : SignatureTable} (htable : table.IsPlain)
    (settings : Settings) (f : Function) :
    (newNames table settings f).Nodup ∧ ∀ x ∈ newNames table settings f, x ∉ f.names := by
  unfold newNames
  split
  · let cx : Context := { Scope.ofFunction table f with settings }
    have hsettles : (redirectBlock cx [] f.body).Settles false (.named (insertedNames cx.settings))
        (f.body.nodes.flatMap Node.names) Block.nodes :=
      redirectBlock_settles htable [] f.body .named_self
    obtain ⟨xs, hxs, -⟩ := hsettles.draws (.avoiding settings.stem f.names)
    have hdrawn : (redirectBlock cx [] f.body).drawn (.avoiding settings.stem f.names) = xs :=
      Pass.drawn_eq hxs
    rw [hdrawn]
    exact ⟨hxs.nodup, hxs.new⟩
  · exact ⟨List.nodup_nil, by simp⟩

/-- The lowering of go-bindings adds no names to a function but those that it makes up and those
that it inserts as they are. -/
theorem Dispatch.lowerItem_names {table : SignatureTable} (htable : table.IsPlain)
    (settings : Settings) (item : Item) :
    (lowerItem table settings item).Yields fun item' => ∀ f, item = .func f →
      ∃ f', item' = .func f' ∧ ∀ x, f'.Has x →
        f.Has x ∨ x ∈ newNames table settings f ∨ x ∈ insertedNames settings := by
  cases item with
  | func f =>
    by_cases hbinding : f.body.hasBinding = true
    · simp only [lowerItem, hbinding, if_true]
      let cx : Context := { Scope.ofFunction table f with settings }
      have hnamed : Within ((Node.Trait.named (insertedNames settings)).good _)
          ((redirectBlock cx [] f.body).runWith (.avoiding settings.stem f.names)).value.nodes :=
        named_redirectBlock htable [] f.body (.avoiding settings.stem f.names)
      rintro - _ ⟨⟩
      refine ⟨_, rfl, fun x hx => ?_⟩
      rw [newNames, if_pos hbinding]
      exact Function.has_of_named hnamed hx
    · simp only [lowerItem, hbinding]
      refine .pure ?_
      rintro _ ⟨⟩
      exact ⟨f, rfl, fun x hx => .inl hx⟩
  | _ => exact fun _ f hf => by cases hf

/-- The second function is what error propagation leaves of the first: it has the collected names of
the first one and the names that were made up for it, which are new and differ. It has no others,
apart from the names that are inserted as they are and those that are not collected. -/
structure Propagation.KeepsNames (settings : Settings) (f f' : Function) (made : List String) :
    Prop where
  kept : f.names ⊆ f'.names
  collected : made ⊆ f'.names
  new : ∀ x ∈ made, x ∉ f.names
  nodup : made.Nodup
  traced : ∀ x, f'.Has x → f.Has x ∨ x ∈ made ∨ x ∈ insertedNames settings

/-- Of a function, error propagation keeps the collected names and adds those that it makes up. -/
theorem Propagation.lowerItem_keeps (table : SignatureTable) (settings : Settings) (f : Function) :
    (lowerItem table settings (.func f)).Yields fun item =>
      ∃ f', item = .func f' ∧ KeepsNames settings f f' (newNames table settings f) := by
  unfold newNames
  cases hsig : table.get? f.key with
  | none =>
    simp only [lowerItem, hsig]
    exact .pure ⟨f, rfl, List.Subset.refl _, by simp, by simp, List.nodup_nil, fun x hx => .inl hx⟩
  | some sig =>
    simp only [lowerItem, hsig]
    let cx : Context := { Scope.ofFunction table f with settings }
    let frame : Frame := .ofShape table f.name sig.returns
    let supply : NameSupply := .avoiding settings.stem f.names
    have hbody : ((lowerBlock cx frame f.body).runWith supply).Yields fun body =>
        KeepsNames settings f { f with returns := sig.clause, body }
          ((lowerBlock cx frame f.body).drawn supply) := by
      intro hfaults
      have hnotes : nameSurvey.NotesErrors cx.settings := ⟨bot_le, bot_le⟩
      obtain ⟨xs, hxs, hgathers⟩ := lowerBlock_gathers hnotes frame f.body hfaults
      -- No name is gathered in the notes.
      obtain ⟨hnames, hkept⟩ := sup_le_iff.mp (hgathers.trans (sup_bot_eq _).le)
      have hnamed := named_lowerBlock cx table f.name sig.returns f.body supply hfaults
      rw [Pass.drawn_eq hxs] at hnamed ⊢
      refine ⟨fun x hx => ?_, fun x hx => ?_, hxs.new, hxs.nodup,
        fun x hx => Function.has_of_named hnamed hx⟩
      · -- Parameters and receiver stay as they are.
        rcases List.mem_append.mp hx with hx | hx
        · exact List.mem_append_left _ hx
        · have hleft := hkept (Block.mem_survey_iff.mpr hx)
          exact List.mem_append_right _ (Block.mem_survey_iff.mp hleft)
      · have hleft := hnames (mem_survey_names_iff.mpr hx)
        exact List.mem_append_right _ (Block.mem_survey_iff.mp hleft)
    have hfunction : (lowerFunction table settings f sig).Yields fun f' =>
        KeepsNames settings f f' ((lowerBlock cx frame f.body).drawn supply) :=
      hbody.bind fun body hkeeps => .pure hkeeps
    exact hfunction.bind fun f' hkeeps => .pure ⟨f', rfl, hkeeps⟩

/-! ### Both passes -/

/-- The same for a function of a unit, which keeps its position. -/
theorem propagateErrors_keeps (table : SignatureTable) (settings : Settings) {program : Program}
    {i : Nat} {f : Function} (hf : program.items[i]? = some (.func f)) :
    (propagateErrors table settings program).Yields fun program' =>
      ∃ f', program'.items[i]? = some (.func f') ∧
        Propagation.KeepsNames settings f f' (Propagation.newNames table settings f) := by
  have hitem (item : Item) : (Propagation.lowerItem table settings item).Yields fun item' =>
      ∀ g, item = .func g →
        ∃ f', item' = .func f' ∧
          Propagation.KeepsNames settings g f' (Propagation.newNames table settings g) := by
    rintro hfaults g rfl
    exact Propagation.lowerItem_keeps table settings g hfaults
  refine (Noted.yields_mapM_getElem? hitem program.items).bind fun items hitems => .pure ?_
  obtain ⟨item', hitem', hfound⟩ := hitems i (.func f) hf
  obtain ⟨f', rfl, hkeeps⟩ := hfound f rfl
  exact ⟨f', hitem', hkeeps⟩

theorem dispatchTasks_names {table : SignatureTable} (htable : table.IsPlain)
    (settings : Settings) {program : Program} {i : Nat} {f : Function}
    (hf : program.items[i]? = some (.func f)) :
    (dispatchTasks table settings program).Yields fun program' =>
      ∃ f', program'.items[i]? = some (.func f') ∧ ∀ x, f'.Has x →
        f.Has x ∨ x ∈ Dispatch.newNames table settings f ∨
          x ∈ Dispatch.insertedNames settings := by
  refine (dispatchTasks_yields_getElem? (Dispatch.lowerItem_names htable settings) hf).mono ?_
  rintro program' ⟨item', hitem', hfound⟩
  obtain ⟨f', rfl, htraced⟩ := hfound f rfl
  exact ⟨f', hitem', htraced⟩

/-- **New names.** The collected names of a function are those that it shows; the others that it has
are hidden in function literals and loop headers. If types and errors of a unit are lowered without
a fault, then the names that error propagation and the lowering of go-bindings make up in a function
all differ, and the function does not show any of them. Every other name that the passes leave in
the function is one that it had, or one of the few that are inserted as they are. -/
theorem newNames_not_shown {settings : Settings} {program typed lowered : Program}
    {table : SignatureTable} (htypes : (lowerTypes settings program).outcome = .ok (typed, table))
    (herrors : (propagateErrors table settings typed).outcome = .ok lowered)
    {i : Nat} {f : Function} (hf : program.items[i]? = some (.func f)) :
    (∀ x, (x ∈ f.names ↔ f.Shows x) ∧ (f.Has x ↔ f.Shows x ∨ f.Hides x)) ∧
      ∃ f₁ f₂, typed.items[i]? = some (.func f₁) ∧ lowered.items[i]? = some (.func f₂) ∧
        let made₁ := Propagation.newNames table settings f₁
        let made₂ := Dispatch.newNames table settings f₂
        (made₁ ++ made₂).Nodup ∧ (∀ x ∈ made₁ ++ made₂, ¬ f.Shows x) ∧
        (∀ x, f₂.Has x → f.Has x ∨ x ∈ made₁ ∨ x ∈ Propagation.insertedNames settings) ∧
        ∀ dispatched, (dispatchTasks table settings lowered).outcome = .ok dispatched →
          ∃ f₃, dispatched.items[i]? = some (.func f₃) ∧ ∀ x, f₃.Has x →
            f.Has x ∨ x ∈ made₁ ++ made₂ ∨
              x ∈ Propagation.insertedNames settings ++ Dispatch.insertedNames settings := by
  refine ⟨fun x => ⟨Function.mem_names_iff_shows, Function.has_iff⟩, ?_⟩
  obtain ⟨hitems, -, htable, -⟩ := (lowerTypes_yields settings program).of_outcome htypes
  -- Lowering types gives a function with the same names.
  obtain ⟨f₁, hf₁, hmap⟩ : ∃ f₁, typed.items[i]? = some (.func f₁) ∧
      (Item.func f).mapTypes (Ty.lowered settings.optionPolicy) = .func f₁ := by
    rw [hitems, List.getElem?_map, hf]
    exact ⟨_, rfl, rfl⟩
  have hnames (x : String) : x ∈ f₁.names ↔ f.Shows x := by
    rw [Function.mem_names_mapTypes hmap, Function.mem_names_iff_shows]
  obtain ⟨f₂, hf₂, hkeeps⟩ := (propagateErrors_keeps table settings hf₁).of_outcome herrors
  obtain ⟨hnodup, hnew⟩ := Dispatch.newNames_spec htable settings f₂
  have htraced (x : String) (hx : f₂.Has x) : f.Has x ∨
      x ∈ Propagation.newNames table settings f₁ ∨ x ∈ Propagation.insertedNames settings :=
    (hkeeps.traced x hx).imp_left (Function.has_mapTypes hmap).mp
  refine ⟨f₁, f₂, hf₁, hf₂, ?_, ?_, htraced, ?_⟩
  · -- The second supply avoids what the first one has given.
    refine List.Nodup.append hkeeps.nodup hnodup fun x hx hx' => ?_
    exact hnew x hx' (hkeeps.collected hx)
  · intro x hx hshows
    rcases List.mem_append.mp hx with hx | hx
    · exact hkeeps.new x hx ((hnames x).mpr hshows)
    · exact hnew x hx (hkeeps.kept ((hnames x).mpr hshows))
  · intro dispatched hdispatched
    obtain ⟨f₃, hf₃, hleft⟩ := (dispatchTasks_names htable settings hf₂).of_outcome hdispatched
    refine ⟨f₃, hf₃, fun x hx => ?_⟩
    rcases hleft x hx with hx | hmade | hinserted
    · rcases htraced x hx with hx | hmade | hinserted
      · exact .inl hx
      · exact .inr (.inl (List.mem_append_left _ hmade))
      · exact .inr (.inr (List.mem_append_left _ hinserted))
    · exact .inr (.inl (List.mem_append_right _ hmade))
    · exact .inr (.inr (List.mem_append_right _ hinserted))

/-! ### Names that look made up -/

/-- `func name(n int) returns { return n }` -/
def echo (name : String) (returns : Ty) : Item :=
  .func {
    name
    receiver := none
    params := [{ name := "n", ty := .named "int" }]
    returns := some returns
    body := .inserted [.ret [.name "n"] .nowhere] }

/-- `gxArg0 := go load(next())` -/
def startLoad : Stmt :=
  .bind [{ name := "gxArg0" }] (.apply (.name "load") [.apply (.name "next") []]) .nowhere

/-- `func work(gxErr0 int) Result<int> { var gxVal0 int; gxArg0 := go load(next());
return try fetch(1) }` -/
def work : Function where
  name := "work"
  receiver := none
  params := [{ name := "gxErr0", ty := .named "int" }]
  returns := some (.result (.named "int"))
  body := .inserted [.var [{ name := "gxVal0" }] (some (.named "int")) [] .nowhere, startLoad,
    .ret [.attempt (.apply (.name "fetch") [.int 1]) .nowhere] .nowhere]

/-- `func work() { run(func() { gxArg0 := go load(next()) }) }` -/
def workInLiteral : Function where
  name := "work"
  receiver := none
  params := []
  returns := none
  body := .inserted [.expr (.apply (.name "run") [.func [] none (.inserted [startLoad]) .nowhere])]

/-- `func work(gxNewSync int) { x := go load(1) }` -/
def workShadowing : Function where
  name := "work"
  receiver := none
  params := [{ name := "gxNewSync", ty := .named "int" }]
  returns := none
  body := .inserted [.bind [{ name := "x" }] (.apply (.name "load") [.int 1]) .nowhere]

/-- A unit with the functions that are called, and the given one. -/
def workUnit (f : Function) : Program where
  name := "work"
  package := "main"
  imports := []
  items := [echo "fetch" (.result (.named "int")), echo "load" (.named "int"), .func f]

/-- The names that are made up in `work` are not among those that it shows. -/
theorem newNames_not_shown_work :
    ∃ typed table lowered dispatched f₁ f₂ f₃,
      (lowerTypes {} (workUnit work)).outcome = .ok (typed, table) ∧
      (propagateErrors table {} typed).outcome = .ok lowered ∧
      (dispatchTasks table {} lowered).outcome = .ok dispatched ∧
      (workUnit work).items[2]? = some (.func work) ∧ typed.items[2]? = some (.func f₁) ∧
      lowered.items[2]? = some (.func f₂) ∧ dispatched.items[2]? = some (.func f₃) ∧
      let made₁ := Propagation.newNames table {} f₁
      let made₂ := Dispatch.newNames table {} f₂
      made₁ = ["gxVal1", "gxErr1"] ∧ made₂ = ["gxArg1", "gxFail0", "gxVal2"] ∧
        (∀ x ∈ made₁ ++ made₂, ¬ work.Shows x) ∧
        ∀ x, f₃.Has x → work.Has x ∨ x ∈ made₁ ++ made₂ ∨
          x ∈ Propagation.insertedNames {} ++ Dispatch.insertedNames {} := by
  have htypes : (lowerTypes {} (workUnit work)).outcome =
      .ok (lowerTypes {} (workUnit work)).value := rfl
  have herrors : (propagateErrors (lowerTypes {} (workUnit work)).value.2 {}
      (lowerTypes {} (workUnit work)).value.1).outcome =
        .ok (propagateErrors (lowerTypes {} (workUnit work)).value.2 {}
          (lowerTypes {} (workUnit work)).value.1).value := rfl
  obtain ⟨-, f₁, f₂, hf₁, hf₂, -, hnew, -, hdispatch⟩ :=
    newNames_not_shown htypes herrors (i := 2) rfl
  obtain ⟨f₃, hf₃, htraced⟩ := hdispatch _ rfl
  cases hf₁
  cases hf₂
  exact ⟨_, _, _, _, _, _, f₃, htypes, herrors, rfl, rfl, rfl, rfl, hf₃, rfl, rfl, hnew, htraced⟩

/-- What a function literal binds is not collected, so that the name is made up once more for an
argument of the same go-binding. The name of the function that makes states is inserted although a
parameter has it. -/
theorem newNames_hidden :
    (∃ typed table lowered f₂,
      (lowerTypes {} (workUnit workInLiteral)).outcome = .ok (typed, table) ∧
      (propagateErrors table {} typed).outcome = .ok lowered ∧
      lowered.items[2]? = some (.func f₂) ∧ workInLiteral.Has "gxArg0" ∧
      "gxArg0" ∉ workInLiteral.names ∧
      Dispatch.newNames table {} f₂ = ["gxArg0", "gxFail0", "gxVal0"]) ∧
    ∃ typed table lowered dispatched f₃,
      (lowerTypes {} (workUnit workShadowing)).outcome = .ok (typed, table) ∧
      (propagateErrors table {} typed).outcome = .ok lowered ∧
      (dispatchTasks table {} lowered).outcome = .ok dispatched ∧
      dispatched.items[2]? = some (.func f₃) ∧ f₃.params = workShadowing.params ∧
      "gxNewSync" ∈ workShadowing.names ∧
      f₃.body.stmts[0]? = some (Stmt.define ["x"]
        [.apply (.index (.name "gxNewSync") (.ofType (.named "int") .nowhere) .nowhere) []]) := by
  have hbind : workInLiteral.body.nodes[4]? = some (.stmt startLoad) := rfl
  have hhas : workInLiteral.Has "gxArg0" :=
    .inr (.inr ⟨.stmt startLoad, List.mem_of_getElem? hbind, by decide⟩)
  exact ⟨⟨_, _, _, _, rfl, rfl, rfl, hhas, by decide, rfl⟩,
    _, _, _, _, _, rfl, rfl, rfl, rfl, rfl, by decide, rfl⟩

end Desugar
