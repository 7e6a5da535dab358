import Desugar.Propagation
import Desugar.Proofs.Fresh
import Desugar.Proofs.Tree.Lowered

/-!
# Names that error propagation inserts

Some names are made up: each consists of the configured stem, one of four roles and a number, and it
is none of the names of the function at hand. The other names stand for something global, the
built-in `new` or a function that makes errors. They are inserted as they are, whatever the function
binds them to.

- `MadeUp`: the form of the made-up names.
- `MakesUp`: the names of this form that a supply does not avoid.
- `Settings.globals`: the global names. With the blank they are `Propagation.insertedNames`.
- `Node.bound`: the names that a node binds.
-/

namespace Desugar

/-- The names that inserted code takes for the built-in function `new` and for where the functions
that make errors are found. -/
def Settings.globals (settings : Settings) : List String :=
  ["new", Path.head settings.errorConstructor, Path.head settings.errorFormatFunction]

/-- The names that error propagation inserts as they are. The blank declares nothing. -/
def Propagation.insertedNames (settings : Settings) : List String := "_" :: settings.globals

/-- The names that a node binds: the parameters of a function literal, or the variables that a
statement declares. -/
def Node.bound : Node → List String
  | .expr (.func params _ _ _) => params.map (·.name)
  | .stmt (.var names _ _ _) | .stmt (.bind names _ _) => names.map (·.name)
  | .stmt (.assign targets .define _ _) => targets.filterMap Expr.asName?
  | .stmt (.loop (.range key value _ _) _ _) => (key.toList ++ value.toList).map (·.name)
  | _ => []

namespace Propagation

/-- The roles of the names that error propagation makes up. -/
def roles : List String := ["Tmp", "Val", "Err", "Cond"]

/-- The name is one that error propagation can make up. -/
def MadeUp (stem x : String) : Prop :=
  ∃ role ∈ roles, ∃ n : Nat, x = stem ++ role ++ toString n

/-- A name that does not begin with the stem is not made up. -/
theorem not_madeUp {stem x : String} (h : ¬ stem.toList <+: x.toList) : ¬ MadeUp stem x := by
  rintro ⟨role, -, n, rfl⟩
  exact h ⟨role.toList ++ (toString n).toList, by simp⟩

/-- The name can be made up from the supply. -/
def MakesUp (first : NameSupply) (x : String) : Prop := x ∉ first.used ∧ MadeUp first.stem x

/-- What a supply offers for one of the roles can be made up from it. -/
theorem makesUp_of_offers {first : NameSupply} {role x : String} (h : first.Offers role x)
    (hrole : role ∈ roles) : MakesUp first x := by
  obtain ⟨hused, n, hn⟩ := h
  exact ⟨hused, role, hrole, n, hn⟩

/-! ### The names of a function -/

/-- What a block mentions is among its names. -/
theorem mem_names_of_mem_mentions {block : Block} {x : String} (h : x ∈ block.mentions) :
    x ∈ block.names := by
  cases block
  exact List.mem_append_right _ h

/-- What an expression of the body has as a name is among the names of the function. -/
theorem mem_names_of_mem_nodes {f : Function} {e : Expr} {x : String}
    (he : .expr e ∈ f.body.nodes) (hx : x ∈ e.ownNames) : x ∈ f.names := by
  have hmention : x ∈ f.body.mentions :=
    List.mem_flatMap.mpr ⟨e, (Block.mem_visit e f.body).mpr he, hx⟩
  exact List.mem_append_right _ (mem_names_of_mem_mentions hmention)

end Propagation

end Desugar
