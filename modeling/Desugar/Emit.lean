import Desugar.Emit.Code
import Desugar.Support

/-!
# The text of a unit

`emit` writes a lowered unit as a source file of the base language: the package clause, the
imports, and the items in order with a blank line before each.
-/

namespace Desugar

namespace Emit

/-- The path of an import, after the name it is given in the unit. -/
def importText (i : Import) : String :=
  match i.localName with
  | some name => name ++ " " ++ Quoted.string i.path
  | none => Quoted.string i.path

/-- The imports of a unit. -/
def importsText : List Import → String
  | [] => ""
  | [i] => "\nimport " ++ importText i ++ "\n"
  | imports =>
    "\nimport (\n" ++ String.join (imports.map fun i => "\t" ++ importText i ++ "\n") ++ ")\n"

/-- A function or method. -/
def function (f : Function) : Except Fault String := do
  let receiver ← match f.receiver with
    | some r => do
      let r ← param r
      .ok (parens r ++ " ")
    | none => .ok ""
  let signature ← signature f.params f.returns f.span
  let body ← block 1 f.body
  .ok ("func " ++ receiver ++ f.name ++ signature ++ " " ++ opening ++ body ++ closing ++ "\n")

/-- A text filled up with spaces to a number of characters. -/
def pad (width : Nat) (text : String) : String :=
  text ++ String.ofList (List.replicate (width - text.length) ' ')

/-- The fields of a struct, with their types one under another. -/
def fields (width : Nat) : List Param → Except Fault String
  | [] => .ok ""
  | p :: ps => do
    let t ← ty p.ty p.span
    let ps ← fields width ps
    .ok ("\t" ++ pad width p.name ++ " " ++ t ++ "\n" ++ ps)

/-- A struct type. The types of its fields are aligned behind the longest name, measured in
bytes. -/
def struct (decl : Struct) : Except Fault String :=
  if decl.fields.isEmpty then .ok ("type " ++ decl.name ++ " struct\x7b\x7d\n")
  else do
    let width := decl.fields.foldl (fun width p => max width p.name.utf8ByteSize) 0
    let fields ← fields width decl.fields
    .ok ("type " ++ decl.name ++ " struct " ++ opening ++ fields ++ closing ++ "\n")

/-- The constants of an enum type, of which the first starts the count. -/
def variants (enum : String) : List Variant → String
  | [] => ""
  | first :: rest =>
    "\nconst (\n" ++
      "\t" ++ enum ++ first.name ++ " " ++ enum ++ " = iota\n" ++
      String.join (rest.map fun variant => "\t" ++ enum ++ variant.name ++ "\n") ++
      ")\n"

/-- An enum type. -/
def enum (decl : Enum) : Except Fault String :=
  match decl.variants.find? fun variant => !variant.fields.isEmpty with
  | some variant => .error ⟨.emittedPayload decl.name variant.name, variant.span⟩
  | none => .ok ("type " ++ decl.name ++ " int\n" ++ variants decl.name decl.variants)

/-- A constant declaration. -/
def const (decl : Constant) : Except Fault String := do
  let value ← expr 0 0 decl.value
  let t ← match decl.ty with
    | some t => do
      let t ← ty t decl.span
      .ok (" " ++ t)
    | none => .ok ""
  .ok ("const " ++ decl.name ++ t ++ " = " ++ value ++ "\n")

/-- An item. -/
def item : Item → Except Fault String
  | .func f => function f
  | .struct decl => struct decl
  | .enum decl => enum decl
  | .const decl => const decl
  | .support stem => .ok (Support.source stem)

/-- The items of a unit, each after a blank line. -/
def items : List Item → Except Fault String
  | [] => .ok ""
  | i :: rest => do
    let i ← item i
    let rest ← items rest
    .ok ("\n" ++ i ++ rest)

end Emit

/-- The text of a unit. -/
def emit (program : Program) : Except Fault String := do
  let items ← Emit.items program.items
  .ok ("package " ++ program.package ++ "\n" ++ Emit.importsText program.imports ++ items)

end Desugar
