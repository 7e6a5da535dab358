/-!
# Fresh names

Names that lowering makes up consist of a configured stem, a word for the role of the name and a
number, such as `gxErr0`. `NameSupply.fresh` takes the least number, not below the count of the
role, whose name is not used yet. Among `used.length + 1` candidates that differ in their number
one is unused, so the search is bounded.
-/

namespace Desugar

/-- The names in use, and the next number of every role that has been asked for. -/
structure NameSupply where
  /-- The text with which every made-up name begins. -/
  stem : String
  used : List String
  counts : List (String × Nat)

namespace NameSupply

/-- A supply that avoids the given names. -/
def avoiding (stem : String) (used : List String) : NameSupply := { stem, used, counts := [] }

/-- The least number that is tried for a role. -/
def count (supply : NameSupply) (role : String) : Nat := (supply.counts.lookup role).getD 0

/-- The name with a role and a number. -/
def candidate (supply : NameSupply) (role : String) (n : Nat) : String :=
  supply.stem ++ role ++ toString n

/-- The first number from `n` on whose name is unused, among the next `tries` numbers. -/
def search (supply : NameSupply) (role : String) : (tries n : Nat) → Nat
  | 0, n => n
  | tries + 1, n =>
    if supply.used.contains (supply.candidate role n) then supply.search role tries (n + 1) else n

/-- Takes a new name for a role. -/
def fresh (supply : NameSupply) (role : String) : String × NameSupply :=
  let n := supply.search role supply.used.length (supply.count role)
  let name := supply.candidate role n
  (name, { supply with
    used := name :: supply.used
    counts := (role, n + 1) :: supply.counts })

/-- Takes one new name for each of several roles, in order. -/
def freshList (supply : NameSupply) : List String → List String × NameSupply
  | [] => ([], supply)
  | role :: roles =>
    let (name, supply) := supply.fresh role
    let (names, supply) := supply.freshList roles
    (name :: names, supply)

end NameSupply

end Desugar
