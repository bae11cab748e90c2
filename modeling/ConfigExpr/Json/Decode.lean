import ConfigExpr.Json.Encode

/-! Reading trees, values, errors and options back from JSON.

A record is an object, whose unknown fields are ignored, or an array of its fields in their order.
The fields of an object are read in alphabetical order, and a node is checked once all its own
fields are read, so the first bad node from the inside out, left to right, is the one reported. -/
namespace ConfigExpr

inductive LoadError where
  /-- The shape is right up to here, but a node has a text that it may not have. -/
  | invalidNode (node : InvalidNode)
  | malformed
  deriving DecidableEq, Repr

abbrev Loaded (α : Type) := Except LoadError α

def malformed {α : Type} : Loaded α := .error .malformed

def Loaded.ofCheck {α : Type} : Except InvalidNode α → Loaded α
  | .ok a => .ok a
  | .error node => .error (.invalidNode node)

/-- The content of a tagged record is read leniently: a name in it may be given by its number, and a
constant may be written as an object with one empty object in it. -/
inductive Reading where
  | strict
  | lenient
  deriving DecidableEq, Repr

namespace Json

def toText : Json → Loaded String
  | string text => .ok text
  | _ => malformed

def toBool : Json → Loaded Bool
  | bool value => .ok value
  | _ => malformed

def toCount : Json → Loaded Nat
  | natural n => if n < countBound then .ok n else malformed
  | _ => malformed

def toChar : Json → Loaded Char
  | string text =>
    match text.toList with
    | [c] => .ok c
    | _ => malformed
  | _ => malformed

def toList : Json → Loaded (List Json)
  | array items => .ok items
  | _ => malformed

def nameAmong (reading : Reading) (names : List String) : Json → Loaded String
  | string name => .ok name
  | natural n =>
    match reading, names[n]? with
    | .lenient, some name => .ok name
    | _, _ => malformed
  | _ => malformed

/-- The name of a constant, alone or as the one key of an object with nothing in it. -/
def constantName (reading : Reading) : Json → Loaded String
  | string name => .ok name
  | object [(name, null)] => .ok name
  | object [(name, object [])] => if reading = .lenient then .ok name else malformed
  | _ => malformed

def field (key : String) (fields : List (String × Json)) : Loaded Json :=
  match fields.lookup key with
  | some json => .ok json
  | none => malformed

/-- The fields of a record, in the order of their names. -/
def record (keys : List String) : Json → Loaded (List Json)
  | object fields => keys.mapM (field · fields)
  | array items => if items.length = keys.length then .ok items else malformed
  | _ => malformed

def toRawText (json : Json) : Loaded String := do
  match ← json.record ["raw_text"] with
  | [text] => text.toText
  | _ => malformed

def toBoolValue (json : Json) : Loaded Bool := do
  match ← json.record ["value"] with
  | [value] => value.toBool
  | _ => malformed

def toStringText (json : Json) : Loaded String := do
  Loaded.ofCheck (checkStringText (← json.toRawText))

def toNumberText (json : Json) : Loaded String := do
  Loaded.ofCheck (checkNumber (← json.toRawText))

def toMemberName (json : Json) : Loaded String := do
  Loaded.ofCheck (checkMemberName (← json.toRawText))

end Json

inductive ArgumentTag where
  | call
  | string
  | number
  | boolean
  deriving DecidableEq, Repr

namespace ArgumentTag

def ofName : String → Loaded ArgumentTag
  | "function" => .ok call
  | "string" => .ok string
  | "number" => .ok number
  | "boolean" => .ok boolean
  | _ => malformed

def ofJson (reading : Reading) (json : Json) : Loaded ArgumentTag := do
  ofName (← json.nameAmong reading ["function", "string", "number", "boolean"])

end ArgumentTag

namespace Argument

def leafOfJson (tag : ArgumentTag) (content : Json) : Loaded Argument :=
  match tag with
  | .call => malformed
  | .string => content.toStringText.map .string
  | .number => content.toNumberText.map .number
  | .boolean => content.toBoolValue.map .boolean

mutual

def ofJson (reading : Reading) : Json → Loaded Argument
  | .object fields => do
    let tag ← ArgumentTag.ofJson reading (← Json.field "type" fields)
    if tag = .call then
      let arguments ← argumentsField fields
      let name ← (← Json.field "name" fields).toText
      let call ← Loaded.ofCheck (Call.check name arguments)
      pure call.toArgument
    else leafOfJson tag (.object fields)
  | .array (tag :: items) => do
    let tag ← ArgumentTag.ofJson reading tag
    if tag = .call then
      match items with
      | name :: arguments :: extra => do
        let name ← name.toText
        let arguments ← listOfJson .lenient arguments
        if extra.isEmpty then
          let call ← Loaded.ofCheck (Call.check name arguments)
          pure call.toArgument
        else malformed
      | _ => malformed
    else leafOfJson tag (.array items)
  | _ => malformed

def argumentsField : List (String × Json) → Loaded (List Argument)
  | [] => malformed
  | (key, json) :: r => if key = "arguments" then listOfJson .lenient json else argumentsField r

def listOfJson (reading : Reading) : Json → Loaded (List Argument)
  | .array items => itemsOfJson reading items
  | _ => malformed

def itemsOfJson (reading : Reading) : List Json → Loaded (List Argument)
  | [] => .ok []
  | x :: r => do
    let argument ← ofJson reading x
    let rest ← itemsOfJson reading r
    pure (argument :: rest)

end

end Argument

def Call.ofJson : Json → Loaded Call
  | .object fields => do
    let arguments ← Argument.listOfJson .strict (← Json.field "arguments" fields)
    let name ← (← Json.field "name" fields).toText
    Loaded.ofCheck (Call.check name arguments)
  | .array (name :: arguments :: extra) => do
    let name ← name.toText
    let arguments ← Argument.listOfJson .strict arguments
    if extra.isEmpty then Loaded.ofCheck (Call.check name arguments) else malformed
  | _ => malformed

def membersOfJson (json : Json) : Loaded (List String) := do
  (← json.toList).mapM Json.toMemberName

/-- A field that is missing is reported after those that are present are read. -/
def Expression.ofJson : Json → Loaded Expression
  | .object fields => do
    let function ← (fields.lookup "function").mapM Call.ofJson
    let members ← (fields.lookup "members").mapM membersOfJson
    match function, members with
    | some function, some members => pure ⟨function, members⟩
    | _, _ => malformed
  | .array (function :: items) => do
    let function ← Call.ofJson function
    match items with
    | members :: extra => do
      let members ← membersOfJson members
      if extra.isEmpty then pure ⟨function, members⟩ else malformed
    | [] => malformed
  | _ => malformed

def ConfigValue.ofTagged (tag : String) (content : Json) : Loaded ConfigValue :=
  match tag with
  | "literal" => content.toText.map .literal
  | "expression" => (Expression.ofJson content).map .expression
  | _ => malformed

/-- The tag is a constant in an object and a name in an array. -/
def ConfigValue.ofJson : Json → Loaded ConfigValue
  | .object fields => do
    let tag ← (← Json.field "type" fields).constantName .strict
    ConfigValue.ofTagged tag (← Json.field "value" fields)
  | .array (tag :: content :: extra) => do
    let tag ← tag.nameAmong .strict ["literal", "expression"]
    let value ← ConfigValue.ofTagged tag content
    if extra.isEmpty then pure value else malformed
  | _ => malformed

def TokenKind.ofJson (reading : Reading) (json : Json) : Loaded TokenKind := do
  match TokenKind.ofName? (← json.constantName reading) with
  | some kind => pure kind
  | none => malformed

def ParseErrorKind.ofJson (json : Json) : Loaded ParseErrorKind := do
  match ParseErrorKind.ofName? (← json.constantName .strict) with
  | some kind => pure kind
  | none => malformed

def Found.ofTagged (reading : Reading) (tag : String) (content : Option Json) : Loaded Found :=
  match tag, content with
  | "token", some content => (TokenKind.ofJson reading content).map .token
  | "char", some content => content.toChar.map .character
  | "end_of_input", none => .ok .endOfInput
  | "end_of_input", some .null => .ok .endOfInput
  | _, _ => malformed

def Found.ofJson (reading : Reading) : Json → Loaded Found
  | .object fields => do
    let tag ← (← Json.field "type" fields).constantName reading
    Found.ofTagged reading tag (fields.lookup "value")
  | .array [tag, content] => do
    let tag ← tag.nameAmong reading ["token", "char", "end_of_input"]
    Found.ofTagged reading tag (some content)
  | _ => malformed

namespace ParseError

def expectedOfJson (json : Json) : Loaded (List TokenKind) := do
  (← json.toList).mapM (TokenKind.ofJson .lenient)

def ofTagged (tag : String) (content : Json) : Loaded ParseError := do
  match tag with
  | "lexical" =>
    match ← content.record ["position", "found", "expected"] with
    | [position, found, expected] =>
      pure (.lexical (← position.toCount) (← Found.ofJson .lenient found)
        (← expectedOfJson expected))
    | _ => malformed
  | "unexpected_token" =>
    match ← content.record ["position", "found", "text", "expected"] with
    | [position, found, text, expected] =>
      pure (.unexpectedToken (← position.toCount) (← TokenKind.ofJson .lenient found)
        (← text.toText) (← expectedOfJson expected))
    | _ => malformed
  | "unexpected_end_of_input" =>
    match ← content.record ["position", "expected"] with
    | [position, expected] =>
      pure (.unexpectedEndOfInput (← position.toCount) (← expectedOfJson expected))
    | _ => malformed
  | "nesting_too_deep" =>
    match ← content.record ["position", "limit"] with
    | [position, limit] => pure (.nestingTooDeep (← position.toCount) (← limit.toCount))
    | _ => malformed
  | _ => malformed

def ofJson : Json → Loaded ParseError
  | .object fields => do ofTagged (← (← Json.field "kind" fields).toText) (.object fields)
  | .array (tag :: items) => do ofTagged (← tag.toText) (.array items)
  | _ => malformed

end ParseError

def Options.ofJson : Json → Loaded Options
  | .object fields =>
    match fields.lookup "max_depth" with
    | some depth => do pure ⟨← depth.toCount⟩
    | none => .ok {}
  | .array [] => .ok {}
  | .array [depth] => do pure ⟨← depth.toCount⟩
  | _ => malformed

end ConfigExpr
