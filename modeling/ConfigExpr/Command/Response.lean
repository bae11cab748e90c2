import ConfigExpr.Command.Arguments
import ConfigExpr.Json.Encode
import ConfigExpr.Tree.Source
import ConfigExpr.Tree.Traversal

/-! What a command answers: the value in the form asked for, or the error with the line of the
source that it is in. `Place.of_eq` says where the scan for that line ends. -/
namespace ConfigExpr

/-- Spaces as wide as the first characters of a line. Tabs are kept, so that what follows stands
under the same character wherever the tabs stop. -/
def caretPadding (line : List Char) (column : Nat) : List Char :=
  (line.take column).map fun c => if c = '\t' then '\t' else ' '

/-- Lines are numbered from 1. -/
structure Place where
  lineNumber : Nat
  line : List Char
  column : Nat
  deriving DecidableEq, Repr

/-- The start and the number of the line of a position. The scan has come to the character at an
index, in a line with this start and this number. -/
def lineScan (position : Nat) (index start number : Nat) : List Char → Nat × Nat
  | [] => (start, number)
  | c :: r =>
    if position ≤ index then (start, number)
    else if c = '\n' then lineScan position (index + 1) (index + 1) (number + 1) r
    else lineScan position (index + 1) start number r

/-- One past the end counts on from the start of the last line. -/
def Place.of (source : List Char) (position : Nat) : Place :=
  let (start, number) := lineScan position 0 0 1 source
  { lineNumber := number
    line := (source.drop start).takeWhile (· != '\n')
    column := position - start }

def lastLineStart (text : List Char) : Nat :=
  text.length - (text.reverse.takeWhile (· != '\n')).length

theorem lastLineStart_concat (text : List Char) (c : Char) :
    lastLineStart (text ++ [c]) = if c = '\n' then text.length + 1 else lastLineStart text := by
  unfold lastLineStart
  rw [List.reverse_append, List.reverse_singleton, List.singleton_append, List.takeWhile_cons,
    List.length_append, List.length_singleton]
  by_cases ends : c = '\n'
  · simp [ends]
  · simp [ends, Nat.add_sub_add_right]

/-- The scan knows of the characters behind it all that it needs of them. -/
theorem lineScan_eq (read rest : List Char) (count : Nat) :
    lineScan (read.length + count) read.length (lastLineStart read) (read.count '\n' + 1) rest =
      (lastLineStart (read ++ rest.take count), (read ++ rest.take count).count '\n' + 1) := by
  induction rest generalizing read count with
  | nil => simp [lineScan]
  | cons c r ih =>
    cases count with
    | zero => simp [lineScan]
    | succ count =>
      have next := ih (read ++ [c]) count
      rw [lastLineStart_concat, List.length_append, List.length_singleton, List.count_append,
        List.append_assoc, List.singleton_append, Nat.add_right_comm, Nat.add_assoc] at next
      rw [List.take_succ_cons, ← next, lineScan, if_neg (by omega)]
      by_cases ends : c = '\n'
      · simp [ends]
      · simp [ends]

theorem Place.of_eq (source : List Char) (position : Nat) :
    Place.of source position =
      { lineNumber := (source.take position).count '\n' + 1
        line := (source.drop (lastLineStart (source.take position))).takeWhile (· != '\n')
        column := position - lastLineStart (source.take position) } := by
  have first : lastLineStart [] = 0 := rfl
  have scan := lineScan_eq [] source position
  rw [first, List.length_nil, List.count_nil, List.nil_append, Nat.zero_add, Nat.zero_add] at scan
  rw [Place.of, scan]

def padLeft (width : Nat) (text : String) : String :=
  String.ofList (List.replicate (width - text.length) ' ') ++ text

def ParseError.report (source : String) (error : ParseError) : String :=
  let place := Place.of source.toList error.position
  "error: " ++ error.message ++ "\n" ++
    padLeft 4 (toString place.lineNumber) ++ " | " ++ String.ofList place.line ++ "\n" ++
    "     | " ++ String.ofList (caretPadding place.line place.column) ++ "^"

/-! The text in which a value is printed. -/

/-- A literal is printed as it is, except in JSON, where its tag tells it from an expression. -/
def ConfigValue.render (format : Format) (layout : Layout) : ConfigValue → String
  | .literal text =>
    match format with
    | .json => (ConfigValue.toJson (.literal text)).render layout
    | _ => text
  | .expression tree =>
    match format with
    | .json => tree.toJson.render layout
    | .sexp => tree.sexp
    | .text => tree.source

/-! What a command answers. -/

inductive ReadFailure where
  /-- The system's words and its number for the failure. -/
  | system (description : String) (code : Nat)
  | notUtf8
  deriving DecidableEq, Repr

def ReadFailure.message : ReadFailure → String
  | system description code => s!"{description} (os error {code})"
  | notUtf8 => "stream did not contain valid UTF-8"

structure Response where
  exitCode : Nat
  output : String
  errorOutput : String
  deriving DecidableEq, Repr

def NoCommand.response : NoCommand → Response
  | help => ⟨0, message help ++ "\n", ""⟩
  | version => ⟨0, message version ++ "\n", ""⟩
  | mistake => ⟨2, "", "error: " ++ mistake.message ++ "\n"⟩

/-- White space around the text of a file or of standard input does not count. -/
def Input.text (input : Input) (content : Except ReadFailure ByteArray) :
    Except String String :=
  let decoded := do
    match String.fromUTF8? (← content) with
    | some text => .ok (trimText text)
    | none => .error ReadFailure.notUtf8
  match input with
  | .inline text => .ok text
  | .standardInput => decoded.mapError fun failure => "failed to read stdin: " ++ failure.message
  | .file path => decoded.mapError fun failure => s!"failed to read '{path}': {failure.message}"

def Command.parse (command : Command) (text : String) : Except ParseError ConfigValue :=
  if command.asValue then ConfigValue.parse command.options text
  else (Expression.parse command.options text).map .expression

/-- In the JSON format a parse error is also printed as JSON, beside the report. -/
def Command.respond (command : Command) (content : Except ReadFailure ByteArray) : Response :=
  match command.input.text content with
  | .error message => ⟨1, "", message ++ "\n"⟩
  | .ok text =>
    match command.parse text with
    | .ok value => ⟨0, value.render command.format command.layout ++ "\n", ""⟩
    | .error error =>
      let output :=
        if command.format = .json then error.toJson.render command.layout ++ "\n" else ""
      ⟨1, output, error.report text ++ "\n"⟩

end ConfigExpr
