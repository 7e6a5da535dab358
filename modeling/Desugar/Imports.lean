import Desugar.Tree

/-!
# Required imports

Inserted code calls functions of packages that the unit may not import yet. `Imports.require`
adds what is missing and then sorts by path; a unit that imports everything already keeps its
imports as they are.
-/

namespace Desugar.Imports

/-- The unit imports the package, under whatever name. -/
def has (imports : List Import) (path : String) : Bool := imports.any (·.path == path)

/-- An import under the package's own name. -/
def plain (path : String) : Import := { path, localName := none }

/-- The required packages that are not imported, each once. -/
def missing (imports : List Import) (required : List String) : List String :=
  required.eraseDups.filter fun path => !has imports path

/-- The imports after adding every required package that is missing. -/
def require (imports : List Import) (required : List String) : List Import :=
  match missing imports required with
  | [] => imports
  | paths => (imports ++ paths.map plain).mergeSort (·.path ≤ ·.path)

end Desugar.Imports
