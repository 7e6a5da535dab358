import Desugar.Span
import Desugar.Ty

/-!
# Faults

What can be wrong with a program unit. A `Fault` is a `Cause` at a place; its kind, its message
and the advice that goes with it are functions of the cause. A `Diagnostic` is a fault written
out for a reader.
-/

namespace Desugar

/-- The classes of faults, each with a stable code. -/
inductive Kind where
  /-- A result or tuple type used where a value type is required. -/
  | invalidTypeUsage
  /-- A call that may fail whose outcome is neither captured nor propagated. -/
  | discardedResult
  /-- `throw` or `try` in a function that does not return a result. -/
  | throwWithoutResultType
  /-- A construct for which there is no rule. -/
  | unsupportedConstruct
  /-- Unbalanced embeds, unknown escapes or unknown verbs in a template. -/
  | malformedInterpolation
  /-- A non-nillable pointer that is given a nil-producing expression. -/
  | nilToNonNillable
  /-- Numbers of values that do not fit a signature. -/
  | arityMismatch
deriving DecidableEq, Inhabited

namespace Kind

/-- The stable code of a kind. -/
def code : Kind → String
  | invalidTypeUsage => "GX0001"
  | discardedResult => "GX0002"
  | throwWithoutResultType => "GX0003"
  | unsupportedConstruct => "GX0004"
  | malformedInterpolation => "GX0005"
  | nilToNonNillable => "GX0006"
  | arityMismatch => "GX0007"

/-- The name of a kind, which labels a fault in a report. -/
def label : Kind → String
  | invalidTypeUsage => "InvalidTypeUsage"
  | discardedResult => "DiscardedResult"
  | throwWithoutResultType => "ThrowWithoutResultType"
  | unsupportedConstruct => "UnsupportedConstruct"
  | malformedInterpolation => "MalformedInterpolation"
  | nilToNonNillable => "NilToNonNillable"
  | arityMismatch => "ArityMismatch"

/-- All kinds, in the order of their codes. -/
def all : List Kind :=
  [invalidTypeUsage, discardedResult, throwWithoutResultType, unsupportedConstruct,
    malformedInterpolation, nilToNonNillable, arityMismatch]

end Kind

/-- Where a value flows to. -/
inductive Sink where
  /-- A declared name. -/
  | name (text : String)
  /-- A value of a return statement. -/
  | returnSlot
  /-- A parameter of a called function. -/
  | param (callee : String)

/-- The sink as it is named in messages. -/
def Sink.describe : Sink → String
  | .name text => s!"`{text}`"
  | .returnSlot => "return slot"
  | .param callee => s!"parameter of `{callee}`"

/-- A statement keyword that runs a call later or elsewhere. -/
inductive Launch where
  | go
  | defer
deriving DecidableEq

/-- The keyword as it is written. -/
def Launch.keyword : Launch → String
  | .go => "go"
  | .defer => "defer"

/-- The reasons for which a unit is rejected. -/
inductive Cause where
  /-- A result type in value position. -/
  | resultAsValue (inner : Ty)
  /-- A tuple type in value position. -/
  | tupleAsValue (ty : Ty)
  /-- A result of a result in a return clause. -/
  | nestedResult (ty : Ty)
  /-- An enum variant that carries values. -/
  | payload (enum variant : String)
  /-- A non-nillable variable without a first value. -/
  | uninitialized (ty : Ty)
  /-- A nil-producing expression that flows into a non-nillable pointer. -/
  | nilFlow (sink : Sink)
  /-- `try` in the value of a constant. -/
  | attemptInConstant (constant : String)
  /-- The outcome of a call that may fail is dropped. -/
  | discarded (callee : String)
  /-- `throw` in a function that does not return a result. -/
  | throwOutsideResult (function : String)
  /-- `try` in a function that does not return a result. -/
  | attemptOutsideResult (function : String)
  /-- `try` of something else than a call. -/
  | attemptOfNonCall
  /-- `try` of a call that cannot fail. -/
  | attemptOfPlain (callee : String)
  /-- `try` of a call whose signature is not known. -/
  | attemptOfUnknown
  /-- `try` gives another number of values than there are targets. -/
  | attemptArity (produced expected : Nat)
  /-- `try` gives no or several values where one is needed. -/
  | attemptAsValue (produced : Nat)
  /-- `try` in the condition of a loop. -/
  | attemptInLoopCondition
  /-- `try` in the post statement of a loop. -/
  | attemptInLoopPost
  /-- `go try` or `defer try`. -/
  | launchedAttempt (launch : Launch)
  /-- A return with a number of values that does not fit the result. -/
  | returnArity (function : String) (expected actual : Nat)
  /-- A two-value receive from a bound name. -/
  | commaOk (name : String)
  /-- `range` over a bound name. -/
  | rangeOverBinding (name : String)
  /-- A go-binding in the header of a loop. -/
  | bindingInHeader
  /-- A go-binding of something else than a call. -/
  | bindingOfNonCall
  /-- A go-binding of a call whose signature is not known. -/
  | bindingOfUnknown
  /-- A go-binding with another number of names than the callee has results. -/
  | bindingArity (callee : String) (slots names : Nat)
  /-- A template to be expanded has a verb outside the grammar. -/
  | unknownVerb (verb : String)
  /-- A literal to be split has a verb outside the grammar. -/
  | unknownEmbedVerb (verb : String)
  /-- A literal ends with a lone backslash. -/
  | danglingBackslash
  /-- An embed without its closing parenthesis. -/
  | unterminatedEmbed
  /-- An embed with nothing in it. -/
  | emptyEmbed
  /-- A backslash sequence that stands for nothing. -/
  | invalidEscape (letter : Char)
  /-- The source text of an embed is no expression. -/
  | unreadable (source : String)
  /-- A template was left for the emitter. -/
  | emittedTemplate
  /-- A `try` was left for the emitter. -/
  | emittedAttempt
  /-- A `throw` was left for the emitter. -/
  | emittedThrow
  /-- A go-binding was left for the emitter. -/
  | emittedBinding
  /-- A type that the base language does not have was left for the emitter. -/
  | emittedType (ty : Ty)
  /-- An enum variant that carries values was left for the emitter. -/
  | emittedPayload (enum variant : String)
  /-- A statement in the header of a loop that does not fit on one line. -/
  | misplacedStatement
  /-- A floating-point constant that is infinite or not a number. -/
  | nonFinite

namespace Cause

/-- The class a cause belongs to. -/
def kind : Cause → Kind
  | resultAsValue _ | tupleAsValue _ | nestedResult _ => .invalidTypeUsage
  | payload _ _ => .unsupportedConstruct
  | uninitialized _ | nilFlow _ => .nilToNonNillable
  | attemptInConstant _ => .unsupportedConstruct
  | discarded _ => .discardedResult
  | throwOutsideResult _ | attemptOutsideResult _ => .throwWithoutResultType
  | attemptOfNonCall | attemptOfPlain _ | attemptOfUnknown => .invalidTypeUsage
  | attemptArity _ _ | attemptAsValue _ => .arityMismatch
  | attemptInLoopCondition | attemptInLoopPost | launchedAttempt _ => .unsupportedConstruct
  | returnArity _ _ _ => .arityMismatch
  | commaOk _ | rangeOverBinding _ | bindingInHeader => .unsupportedConstruct
  | bindingOfNonCall | bindingOfUnknown => .unsupportedConstruct
  | bindingArity _ _ _ => .arityMismatch
  | unknownVerb _ | unknownEmbedVerb _ => .malformedInterpolation
  | danglingBackslash | unterminatedEmbed | emptyEmbed => .malformedInterpolation
  | invalidEscape _ => .malformedInterpolation
  | unreadable _ => .unsupportedConstruct
  | emittedTemplate | emittedAttempt | emittedThrow | emittedBinding => .unsupportedConstruct
  | emittedType _ | emittedPayload _ _ => .unsupportedConstruct
  | misplacedStatement | nonFinite => .unsupportedConstruct

/-- What is wrong, in words. -/
def message : Cause → String
  | resultAsValue inner =>
    s!"`Result<{inner.spelling}>` can only be used as a function return type"
  | tupleAsValue ty => s!"tuple type `{ty.spelling}` is only valid as a return type"
  | nestedResult ty => s!"nested Result `{ty.spelling}` is not allowed"
  | payload enum variant => s!"enum `{enum}` variant `{variant}` carries associated values"
  | uninitialized ty => s!"non-nillable `{ty.spelling}` declared without an initializer"
  | nilFlow sink =>
    s!"{sink.describe} is a non-nillable pointer but receives a nil-producing expression"
  | attemptInConstant constant => s!"`try` in the initializer of constant `{constant}`"
  | discarded callee => s!"result of `{callee}` is discarded"
  | throwOutsideResult function =>
    s!"`throw` in `{function}`, whose return type is not a Result"
  | attemptOutsideResult function =>
    s!"`try` in `{function}`, whose return type is not a Result"
  | attemptOfNonCall => "`try` must be applied to a function call"
  | attemptOfPlain callee => s!"`try` applied to `{callee}`, which does not return a Result"
  | attemptOfUnknown => "`try` applied to a call whose Result signature is unknown"
  | attemptArity produced expected =>
    s!"`try` produces {produced} value(s) but {expected} are assigned"
  | attemptAsValue produced =>
    s!"`try` produces {produced} values where a single value is expected"
  | attemptInLoopCondition => "`try` in a loop condition"
  | attemptInLoopPost => "`try` in a loop post statement"
  | launchedAttempt launch => s!"`{launch.keyword}` applied to a `try` expression"
  | returnArity function expected actual =>
    s!"`{function}` returns {expected} value(s) plus an error, but this return has {actual}"
  | commaOk name => s!"comma-ok receive from go-binding `{name}`"
  | rangeOverBinding name => s!"`range` over go-binding `{name}`"
  | bindingInHeader => "go-binding in a loop header"
  | bindingOfNonCall => "a go-binding must dispatch a function call"
  | bindingOfUnknown =>
    "go-binding callee is not a function or method declared in this program unit"
  | bindingArity callee slots names =>
    s!"`{callee}` returns {slots} value(s) but the go-binding names {names}"
  | unknownVerb verb | unknownEmbedVerb verb => s!"`{verb}` is not a format verb"
  | danglingBackslash => "dangling `\\` at the end of the literal"
  | unterminatedEmbed => "unterminated `\\(` in interpolated string"
  | emptyEmbed => "empty interpolation"
  | invalidEscape letter => "invalid escape `\\" ++ letter.toString ++ "`"
  | unreadable source => s!"cannot parse `{source}`"
  | emittedTemplate => "interpolated string reached the emitter without being expanded"
  | emittedAttempt => "`try` reached the emitter without being lowered"
  | emittedThrow => "`throw` reached the emitter without being lowered"
  | emittedBinding => "go-binding reached the emitter without being lowered"
  | emittedType ty => s!"type `{ty.spelling}` reached the emitter without being lowered"
  | emittedPayload enum variant => s!"enum variant `{enum}.{variant}` carries associated values"
  | misplacedStatement => "statement cannot appear in this position"
  | nonFinite => "non-finite float literal"

/-- How the unit could be mended, where there is advice to give. -/
def help? : Cause → Option String
  | resultAsValue _ =>
    some "return the Result from a function, or use the value type directly"
  | nestedResult _ => some "a function has exactly one error slot"
  | payload _ _ => some "only enums with plain variants can be lowered"
  | uninitialized _ => some "initialize the variable with a non-nil value"
  | discarded _ => some "wrap the call in `try` or capture every returned value"
  | throwOutsideResult _ => some "declare the return type as Result<T> to allow throwing"
  | attemptOutsideResult _ => some "only a Result-returning function can propagate an error"
  | attemptOfUnknown => some "`try` needs a Result function declared in this program unit"
  | attemptAsValue _ => some "assign the values to names first"
  | attemptInLoopCondition =>
    some "assign the value before the loop and update it in the body"
  | commaOk _ => some "a go-binding always delivers exactly one value; use `<-name`"
  | bindingOfUnknown => some "wrap the call in a local function to bind its results"
  | unknownVerb _ => some "use a verb such as `v`, `d`, `s`, `q` or `.2f`"
  | _ => none

end Cause

/-- A cause and the place where it was found. -/
structure Fault where
  cause : Cause
  span : Span

/-- A fault written out: what a reader is told. -/
structure Diagnostic where
  kind : Kind
  span : Span
  message : String
  help? : Option String

/-- The headline of a diagnostic: its code and its message. -/
def Diagnostic.headline (d : Diagnostic) : String := "[" ++ d.kind.code ++ "] " ++ d.message

/-- Writes a fault out. -/
def Fault.diagnostic (f : Fault) : Diagnostic where
  kind := f.cause.kind
  span := f.span
  message := f.cause.message
  help? := f.cause.help?

end Desugar
