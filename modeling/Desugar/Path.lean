import Desugar.Tree.Build

/-!
# Qualified function names

A helper function is configured by a path such as `fmt.Sprintf`: a package and a function in it,
joined by dots. A path without a dot names a function of the unit itself.
-/

namespace Desugar.Path

/-- Cuts a text at every occurrence of a separator; `n` separators give `n + 1` parts. -/
def parts (separator : Char) : List Char → List (List Char)
  | [] => [[]]
  | c :: cs =>
    if c = separator then [] :: parts separator cs
    else match parts separator cs with
      | [] => [[c]]
      | part :: rest => (c :: part) :: rest

/-- The package that provides a function: the text before the last dot. -/
def package? (path : String) : Option String :=
  match path.toList.reverse.dropWhile (· != '.') with
  | [] => none
  | _ :: before => some (String.ofList before.reverse)

/-- The expression that refers to a function: a name, then one member per further part. -/
def reference (path : String) : Expr :=
  match parts '.' path.toList with
  | [] => Expr.name ""
  | first :: rest =>
    rest.foldl (fun base part => base.member (String.ofList part)) (Expr.name (String.ofList first))

/-- A call of the function at a path. -/
def call (path : String) (args : List Expr) : Expr := (reference path).apply args

end Desugar.Path
