import Desugar.Settings
import Desugar.Settings.Document

/-!
# Loading of settings

Settings are read from a document. Each setting has a key of its own; what a document does not
mention keeps its default, and no key may be unknown.
-/

namespace Desugar

namespace Settings

/-- Why settings could not be loaded. -/
inductive LoadError where
  /-- There is no document. -/
  | missing
  /-- The document is not UTF-8 text. -/
  | notText
  /-- The text is no document, or names something that is no setting. -/
  | malformed
  /-- Names cannot begin with the given text. -/
  | badStem (stem : String)
deriving DecidableEq

/-- The error of a document at a path, in words, where there are words for it. -/
def LoadError.message? (path : String) : LoadError → Option String
  | missing => some s!"failed to read {path}: No such file or directory (os error 2)"
  | notText => some s!"failed to read {path}: stream did not contain valid UTF-8"
  | malformed => none
  | badStem stem => some <|
      s!"invalid lowering options in {path}: " ++
      s!"hidden-prefix `{stem}` is not a valid identifier prefix"

/-- The path that messages give for a document that is no file. -/
def inlinePath : String := "<inline>"

/-- The policy that a node names: by its word, or as a table in which the word is the only key and
nothing is under it. -/
def policy? : Document.Node → Option OptionPolicy
  | .text word => OptionPolicy.ofWord? word
  | .table _ [(word, content)] => if content.isEmpty then OptionPolicy.ofWord? word else none
  | _ => none

/-- Changes the setting with a key. -/
def assign? (settings : Settings) (key : String) (node : Document.Node) : Option Settings :=
  match key, node with
  | "hidden-prefix", .text value => some { settings with stem := value }
  | "format-function", .text value => some { settings with formatFunction := value }
  | "error-format-function", .text value => some { settings with errorFormatFunction := value }
  | "error-constructor", .text value => some { settings with errorConstructor := value }
  | "option-policy", node => (policy? node).map fun optionPolicy =>
      { settings with optionPolicy }
  | _, _ => none

/-- Changes settings one after another. -/
def assignAll? (settings : Settings) : Document.Entries → Option Settings
  | [] => some settings
  | (key, node) :: rest => do
    let settings ← settings.assign? key node
    settings.assignAll? rest

/-- A character that an identifier may hold. -/
def isNameChar (c : Char) : Bool :=
  ('a' ≤ c && c ≤ 'z') || ('A' ≤ c && c ≤ 'Z') || c.isDigit || c == '_'

/-- Identifiers may begin with the text. -/
def isStem (text : String) : Bool :=
  match text.toList with
  | [] => false
  | c :: cs => (c :: cs).all isNameChar && !c.isDigit

/-- The settings of a document. -/
def ofDocument (text : String) : Except LoadError Settings :=
  match (Document.read? text).bind ({} : Settings).assignAll? with
  | none => .error .malformed
  | some settings => if isStem settings.stem then .ok settings else .error (.badStem settings.stem)

/-- The settings of a file with the given content, if it exists. -/
def ofFile : Option ByteArray → Except LoadError Settings
  | none => .error .missing
  | some bytes =>
    match String.fromUTF8? bytes with
    | some text => ofDocument text
    | none => .error .notText

end Settings

end Desugar
