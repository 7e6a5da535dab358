import Desugar.Path

/-!
# Settings

The choices a user makes for a lowering: how made-up names begin, which functions inserted code
calls, and how an option over a type that already has a nil value is represented.
-/

namespace Desugar

/-- How an option `T?` is represented when the zero value of `T` is nil. -/
inductive OptionPolicy where
  /-- As `T` itself; absence is nil. -/
  | nilSentinel
  /-- As `*T`, like every other option. -/
  | alwaysPointer
deriving DecidableEq, Inhabited

namespace OptionPolicy

/-- The word for a policy in a settings document. -/
def word : OptionPolicy → String
  | nilSentinel => "nil-sentinel"
  | alwaysPointer => "always-pointer"

/-- The policy that a word stands for. -/
def ofWord? (text : String) : Option OptionPolicy :=
  [nilSentinel, alwaysPointer].find? (·.word == text)

end OptionPolicy

/-- The settings of a lowering. -/
structure Settings where
  /-- The text with which made-up names begin. -/
  stem : String := "gx"
  /-- Formats a template into a string. -/
  formatFunction : String := "fmt.Sprintf"
  /-- Formats a template into an error. -/
  errorFormatFunction : String := "fmt.Errorf"
  /-- Makes an error of a string. -/
  errorConstructor : String := "errors.New"
  optionPolicy : OptionPolicy := .nilSentinel
deriving DecidableEq

instance : Inhabited Settings := ⟨{}⟩

/-- A made-up name without a number. -/
def Settings.hidden (settings : Settings) (role : String) : String := settings.stem ++ role

end Desugar
