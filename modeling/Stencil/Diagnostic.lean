import Stencil.Engine.Defaults
import Stencil.Files.Generate
import Stencil.Json.Printer
import Stencil.Spec.Check
import Stencil.Template.Error

namespace Stencil

/-!
# Diagnostics

The wording of errors.  Every error has a code and a message, and some have
advice on what to do.
-/

/-- An error in words. -/
structure Diagnostic where
  code : Text
  message : Text
  help : Option Text := none
  deriving DecidableEq, Repr

namespace Diagnostic

def plain (code message : Text) : Diagnostic := { code := "datamatic::" ++ code, message }

def advised (code message help : Text) : Diagnostic :=
  { code := "datamatic::" ++ code, message, help := some help }

end Diagnostic

open Diagnostic

/-! ## Configuration -/

/-- The flaw of a pattern in words. -/
def PatternFlaw.message : PatternFlaw → Text
  | .empty => "pattern cannot be empty"
  | .severalPlaceholders =>
      "only one placeholder is supported, use '\x7b\x7d...' for several"
  | .mixedPlaceholders => "variadic and non-variadic placeholders cannot be mixed"

def PatternError.diagnostic : PatternError → Diagnostic
  | .invalid pattern flaw =>
      plain "invalid_pattern" ("invalid type pattern '" ++ pattern ++ "': " ++ flaw.message)
  | .duplicate pattern =>
      plain "duplicate_type" ("'" ++ pattern ++ "' already has a registered type renderer")

def MethodError.diagnostic : MethodError → Diagnostic
  | .duplicate scope name =>
      plain "duplicate_method"
        ("an implementation already exists for " ++ scope.word ++ "::" ++ name)
  | .unreachable scope name =>
      advised "invalid_method_name"
        ("'" ++ name ++ "' cannot be registered for " ++ scope.word ++
          ", tokens could never reach it")
        "method names are identifiers, optionally joined by '.'"

def ConfigurationError.diagnostic : ConfigurationError → Diagnostic
  | .pattern cause => cause.diagnostic
  | .method cause => cause.diagnostic

/-- The codes of the errors that are raised while an engine is built. -/
def Diagnostic.configurationCodes : List Text :=
  ["invalid_pattern", "duplicate_type", "duplicate_method", "invalid_method_name"]

/-- Whether an error was raised while an engine was built. -/
def Diagnostic.isConfiguration (d : Diagnostic) : Bool :=
  d.code ∈ Diagnostic.configurationCodes.map fun code => ("datamatic::".toList ++ code : Text)

/-! ## Tokens -/

/-- The flaw of a token in words. -/
def TokenFlaw.message : TokenFlaw → Text
  | .noSeparator => "expected 'Namespace::function'"
  | .noFunction => "missing function name"
  | .badFunction name => "'" ++ name ++ "' is not a valid function name"
  | .unclosedArguments => "missing ')'"
  | .trailingComma => "trailing comma"
  | .emptyArgument => "empty argument"
  | .unquotedArgument rest => "unquoted argument at '" ++ rest ++ "'"
  | .unterminatedString rest => "unterminated string " ++ rest
  | .noCommaOrParenthesis rest => "expected ',' or ')' at '" ++ rest ++ "'"
  | .afterArguments rest => "unexpected '" ++ rest ++ "' after ')'"
  | .unclosedToken => "missing closing '\x7d\x7d'"

def TokenError.diagnostic : TokenError → Diagnostic
  | .invalid raw flaw =>
      advised "invalid_token" ("invalid token '" ++ raw ++ "': " ++ flaw.message)
        ("tokens look like \x7b\x7bComp::name\x7d\x7d or " ++
          "\x7b\x7bAttr::if_not_last(\",\")\x7d\x7d")
  | .unknownNamespace word raw =>
      advised "unknown_namespace" ("unknown namespace '" ++ word ++ "' in token '" ++ raw ++ "'")
        "valid namespaces are: Comp, Attr"

/-! ## Rendering -/

def LookupError.diagnostic : LookupError → Diagnostic
  | .malformedList list =>
      advised "invalid_type_list" ("invalid type list '" ++ list ++ "'")
        "brackets must be balanced"
  | .unknownType name =>
      plain "unresolved_type" ("no renderer registered for type '" ++ name ++ "'")

def Expectation.message : Expectation → Text
  | .integer => "expected an integer"
  | .nonNegativeInteger => "expected a non-negative integer"
  | .inRange least greatest =>
      "out of range [" ++ Text.ofInt least ++ ", " ++ Text.ofInt greatest ++ "]"
  | .number => "expected a number"
  | .truthValue => "expected true or false"
  | .singleCharacter => "expected a single-character string"
  | .string => "expected a string"
  | .list => "expected a list"
  | .typeParameters expected found =>
      "expected " ++ Text.ofNat expected ++ " type parameters, found " ++ Text.ofNat found
  | .decimalSize size => "array size '" ++ size ++ "' is not a decimal integer"
  | .elements expected found =>
      "expected " ++ Text.ofNat expected ++ " elements, found " ++ Text.ofNat found
  | .twoElements => "expected a list of exactly 2 elements"
  | .keyAndValue => "expected a [key, value] pair"
  | .objectOrPairs => "expected an object or a list of pairs"
  | .onlyNull => "only null is accepted"
  | .sourceText => "expected the callable's source text as a string"
  | .other reason => reason

def RenderError.diagnostic : RenderError → Diagnostic
  | .lookup cause => cause.diagnostic
  | .mismatch type value expectation =>
      plain "type_mismatch"
        (value.print ++ " is not renderable as '" ++ type ++ "': " ++ expectation.message)
  | .noAlternative type value _ =>
      plain "no_alternative"
        (value.print ++ " is not renderable as any alternative of '" ++ type ++ "'")
  | .tooDeep type => plain "too_deep" ("rendering '" ++ type ++ "' does not come to an end")

def DefaultError.diagnostic (e : DefaultError) : Diagnostic :=
  plain "invalid_default"
    ("default value of " ++ e.component ++ "." ++ e.name ++ " is not a valid '" ++
      e.typeName ++ "'")

/-! ## Evaluation and expansion -/

def ArgumentFlaw.message : ArgumentFlaw → Text
  | .noActiveAttribute => "Attr methods need an active attribute"
  | .tokenWithoutAttribute => "Attr tokens need an active attribute"
  | .fieldWithArguments => "field lookups take no arguments"
  | .count expected found =>
      "expected " ++ Text.ofNat expected ++ " arguments, found " ++ Text.ofNat found
  | .oneText found => "expected 1 argument, found " ++ Text.ofNat found
  | .indexAndTexts found =>
      "expected (index, yes, no), found " ++ Text.ofNat found ++ " arguments"
  | .noIndex text => "'" ++ text ++ "' is not an integer index"
  | .fieldSeparatorFormat found =>
      "expected (field, separator[, format]), found " ++ Text.ofNat found ++ " arguments"
  | .other reason => reason

def EvalError.diagnostic : EvalError → Diagnostic
  | .unknownField scope field =>
      advised "unknown_field" (scope.word ++ " has no field '" ++ field ++ "'")
        ("register a custom method for " ++ scope.word ++ "::" ++ field ++
          " or use an existing field")
  | .badUse function flaw =>
      plain "invalid_argument" ("invalid arguments to " ++ function ++ ": " ++ flaw.message)
  | .render cause => cause.diagnostic

namespace Template

/-- The flaw of a marker in words. -/
def MarkerFlaw.message : MarkerFlaw → Text
  | .noAssignment word => "'" ++ word ++ "' is not FLAG=value"
  | .noFlag word => "'" ++ word ++ "' has no flag name"
  | .noTruthValue value => "flag value must be true or false, found '" ++ value ++ "'"
  | .repeatedFlag flag => "flag '" ++ flag ++ "' given twice"
  | .endWithArguments => "DATAMATIC_END takes no arguments"

def Cause.diagnostic : Cause → Diagnostic
  | .token cause => cause.diagnostic
  | .marker line flaw =>
      advised "invalid_marker" ("invalid block marker '" ++ line ++ "': " ++ flaw.message)
        ("open blocks with `DATAMATIC_BEGIN FLAG=true|false ...`, " ++
          "close with `DATAMATIC_END`")
  | .nestedBlock =>
      plain "nested_block"
        "tried to begin a datamatic block while in another, blocks cannot be nested"
  | .unterminatedBlock =>
      advised "unterminated_block" "datamatic block is never closed" "add a DATAMATIC_END line"
  | .unmatchedEnd =>
      plain "unmatched_end" "DATAMATIC_END without a matching DATAMATIC_BEGIN"
  | .unknownFlag flag =>
      advised "unknown_flag" ("block filters on undeclared flag '" ++ flag ++ "'")
        ("declare '" ++ flag ++ "' in the spec's \"flag_defaults\" mapping")
  | .eval cause => cause.diagnostic

def Error.diagnostic (e : Error) : Diagnostic :=
  plain "template_error"
    (e.template ++ ":" ++ Text.ofNat e.line ++ ": " ++ e.cause.diagnostic.message)

end Template

/-! ## Files -/

def FileError.message : FileError → Text
  | .unreadable path => "failed to read " ++ path
  | .unwritable path => "failed to write " ++ path
  | .unsearchable path => "Failed to walk " ++ path

/-- The error in words.  Errors of the file system have no code. -/
def EmitError.diagnostic : EmitError → Diagnostic
  | .notATemplate path =>
      plain "not_a_template"
        ("'" ++ path ++ "' is not a template file (expected '.dm.' in its name)")
  | .unreadable path => plain "io" ("failed to read template '" ++ path ++ "'")
  | .template cause => cause.diagnostic
  | .file cause => { code := [], message := cause.message }

/-! ## Specs -/

def SpecError.diagnostic : SpecError → Diagnostic
  | .unreadable path =>
      advised "io" ("failed to read '" ++ path ++ "'")
        "pass the path to the component spec with --spec"
  | .malformed _ _ => plain "parse_error" "failed to parse component spec"
  | .undeclaredFlag flag owner _ =>
      advised "unknown_flag" ("unknown flag '" ++ flag ++ "' on " ++ owner)
        ("declare '" ++ flag ++ "' in the top-level \"flag_defaults\" mapping")
  | .duplicateComponent name _ =>
      advised "duplicate_name" ("duplicate component name '" ++ name ++ "'")
        "component names must be unique"
  | .duplicateAttribute component name _ =>
      advised "duplicate_name" ("duplicate attribute name '" ++ name ++ "'")
        ("attribute names must be unique within component '" ++ component ++ "'")
  | .blankName owner => plain "validation_error" (owner ++ " name cannot be empty")
  | .blankType owner _ => plain "validation_error" (owner ++ " has an empty type")

/-- A part of a document with a remark. -/
structure Label where
  span : Span
  text : Text
  deriving DecidableEq, Repr

/-- The parts of the document that show the error. -/
def SpecError.labels (e : SpecError) : List Label :=
  let at? (span? : Option Span) (text : Text) : List Label :=
    (span?.map fun span => (⟨span, text⟩ : Label)).toList
  match e with
  | .unreadable _ => []
  | .malformed _ place => at? (place.map (⟨·, 0⟩)) "parse error here"
  | .undeclaredFlag _ _ span => at? span "flag not declared in flag_defaults"
  | .duplicateComponent _ span => at? span "defined more than once"
  | .duplicateAttribute _ _ span => at? span "defined more than once"
  | .blankName _ => []
  | .blankType _ span => at? span e.diagnostic.message

end Stencil
