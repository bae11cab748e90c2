import ConfigExpr.Json.Basic
import ConfigExpr.Parse.Run

/-! The command line: options in long and short form, and at most one expression. The arguments are
read from the front, and the first mistake or the first request for help or for the version ends
the reading. -/
namespace ConfigExpr

inductive Format where
  | json
  | sexp
  | text
  deriving DecidableEq, Repr

def Format.ofName? : String → Option Format
  | "json" => some .json
  | "sexp" => some .sexp
  | "text" => some .text
  | _ => none

inductive Input where
  | inline (text : String)
  | standardInput
  | file (path : String)
  deriving DecidableEq, Repr

structure Command where
  input : Input
  format : Format
  layout : Layout
  /-- Read the text as a configuration value, which may be a literal. -/
  asValue : Bool
  options : Options
  deriving DecidableEq, Repr

inductive CommandOption where
  | file
  | format
  | maxDepth
  | pretty
  | value
  | verbose
  | help
  | version
  deriving DecidableEq, Repr

/-- Help and the version are asked for, the rest are mistakes. -/
inductive NoCommand where
  | help
  | version
  | unknownOption (name : String)
  | missingValue (option : CommandOption)
  | needlessValue (option : CommandOption)
  | badValue (option : CommandOption) (value : String)
  | repeated (option : CommandOption)
  | secondExpression (text : String)
  | expressionAndFile
  | nothingToRead
  deriving DecidableEq, Repr

namespace CommandOption

def ofLong? : String → Option CommandOption
  | "file" => some file
  | "format" => some format
  | "max-depth" => some maxDepth
  | "pretty" => some pretty
  | "value" => some value
  | "verbose" => some verbose
  | "help" => some help
  | "version" => some version
  | _ => none

def ofShort? : Char → Option CommandOption
  | 'f' => some file
  | 'o' => some format
  | 'v' => some verbose
  | 'h' => some help
  | 'V' => some version
  | _ => none

def takesValue : CommandOption → Bool
  | file | format | maxDepth => true
  | pretty | value | verbose | help | version => false

def longName : CommandOption → String
  | file => "--file"
  | format => "--format"
  | maxDepth => "--max-depth"
  | pretty => "--pretty"
  | value => "--value"
  | verbose => "--verbose"
  | help => "--help"
  | version => "--version"

end CommandOption

/-- The words are free. A caller goes by the exit code and by the stream they are printed to. -/
def NoCommand.message : NoCommand → String
  | help => "usage: dsc-expr [options] [expression]"
  | version => "dsc-expr 0.1.0"
  | unknownOption name => "unknown option " ++ displayText name
  | missingValue option => option.longName ++ " needs a value"
  | needlessValue option => option.longName ++ " takes no value"
  | badValue option value => "bad value " ++ displayText value ++ " for " ++ option.longName
  | repeated option => option.longName ++ " is given twice"
  | secondExpression text => "unexpected argument " ++ displayText text
  | expressionAndFile => "both an expression and --file are given"
  | nothingToRead => "neither an expression nor --file is given"

/-- Decimal digits, perhaps after a plus sign, of a number that fits into 64 bits. -/
def readDepth? (text : String) : Option Nat :=
  let digits :=
    match text.toList with
    | '+' :: r => r
    | r => r
  if isNumber digits then
    let n := Nat.ofDigitChars 10 digits 0
    if n < countBound then some n else none
  else none

structure Draft where
  expression : Option String := none
  file : Option String := none
  format : Option Format := none
  maxDepth : Option Nat := none
  pretty : Bool := false
  value : Bool := false
  verbose : Bool := false
  deriving DecidableEq, Repr

namespace Draft

def addExpression (draft : Draft) (text : String) : Except NoCommand Draft :=
  if draft.expression.isSome then .error (.secondExpression text)
  else .ok { draft with expression := some text }

def turnOn (draft : Draft) (option : CommandOption) : Except NoCommand Draft :=
  match option with
  | .pretty => if draft.pretty then .error (.repeated option) else .ok { draft with pretty := true }
  | .value => if draft.value then .error (.repeated option) else .ok { draft with value := true }
  | .verbose =>
    if draft.verbose then .error (.repeated option) else .ok { draft with verbose := true }
  | .help => .error .help
  | .version => .error .version
  | _ => .error (.missingValue option)

def set (draft : Draft) (option : CommandOption) (value : String) : Except NoCommand Draft :=
  match option with
  | .file =>
    if draft.file.isSome then .error (.repeated option)
    else if value.isEmpty then .error (.badValue option value)
    else .ok { draft with file := some value }
  | .format =>
    if draft.format.isSome then .error (.repeated option)
    else
      match Format.ofName? value with
      | some format => .ok { draft with format := some format }
      | none => .error (.badValue option value)
  | .maxDepth =>
    if draft.maxDepth.isSome then .error (.repeated option)
    else
      match readDepth? value with
      | some depth => .ok { draft with maxDepth := some depth }
      | none => .error (.badValue option value)
  | _ => .error (.needlessValue option)

/-- A long option without its dashes. The second part is an option that still needs a value. -/
def readLong (draft : Draft) (text : List Char) :
    Except NoCommand (Draft × Option CommandOption) :=
  let name := String.ofList (text.takeWhile (· != '='))
  match CommandOption.ofLong? name with
  | none => .error (.unknownOption name)
  | some option =>
    match text.dropWhile (· != '=') with
    | _ :: value => do return (← draft.set option (String.ofList value), none)
    | [] =>
      if option.takesValue then .ok (draft, some option)
      else do return (← draft.turnOn option, none)

/-- Short options in a row. One that takes a value takes the rest of the row, if there is any. -/
def readShort (draft : Draft) : List Char → Except NoCommand (Draft × Option CommandOption)
  | [] => .ok (draft, none)
  | c :: r =>
    match CommandOption.ofShort? c with
    | none => .error (.unknownOption (String.ofList [c]))
    | some option =>
      if option.takesValue then
        match r with
        | [] => .ok (draft, some option)
        | '=' :: value => do return (← draft.set option (String.ofList value), none)
        | value => do return (← draft.set option (String.ofList value), none)
      else do readShort (← draft.turnOn option) r

/-- An argument that is an option rather than an expression or a value. A dash alone is none. -/
def looksLikeOption (text : String) : Bool :=
  match text.toList with
  | '-' :: _ :: _ => true
  | _ => false

/-- All that follows two dashes alone is taken as expressions. -/
def read (draft : Draft) : List String → Except NoCommand Draft
  | [] => .ok draft
  | text :: rest =>
    match text.toList with
    | ['-', '-'] => rest.foldlM addExpression draft
    | '-' :: c :: r => do
      let (draft, waiting) ← if c = '-' then draft.readLong r else draft.readShort (c :: r)
      match waiting with
      | none => draft.read rest
      | some option =>
        match rest with
        | [] => .error (.missingValue option)
        | value :: rest =>
          if looksLikeOption value then .error (.missingValue option)
          else do (← draft.set option value).read rest
    | _ => do (← draft.addExpression text).read rest

def input (draft : Draft) : Except NoCommand Input :=
  match draft.expression, draft.file with
  | some text, none => .ok (.inline text)
  | none, some path => .ok (if path = "-" then .standardInput else .file path)
  | some _, some _ => .error .expressionAndFile
  | none, none => .error .nothingToRead

end Draft

/-- Being verbose only adds to the log, which is no part of the answer. -/
def Command.ofArguments (arguments : List String) : Except NoCommand Command := do
  let draft ← Draft.read {} arguments
  return {
    input := ← draft.input
    format := draft.format.getD .sexp
    layout := if draft.pretty then .indented else .compact
    asValue := draft.value
    options := (draft.maxDepth.map Options.mk).getD {} }

end ConfigExpr
