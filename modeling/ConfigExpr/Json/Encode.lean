import ConfigExpr.Parse.Run
import ConfigExpr.Json.Basic

/-! The JSON form of trees, values, errors and options. -/
namespace ConfigExpr

namespace Json

def rawText (text : String) : Json := object [("raw_text", string text)]

def boolValue (value : Bool) : Json := object [("value", bool value)]

def tagged (tag : String) (content : Json) : Json :=
  object [("type", string tag), ("value", content)]

end Json

namespace Argument

mutual

def toJson : Argument → Json
  | .call name arguments =>
    .object [("type", .string "function"), ("name", .string name),
      ("arguments", .array (listToJson arguments))]
  | .string text => .object [("type", .string "string"), ("raw_text", .string text)]
  | .number digits => .object [("type", .string "number"), ("raw_text", .string digits)]
  | .boolean value => .object [("type", .string "boolean"), ("value", .bool value)]

def listToJson : List Argument → List Json
  | [] => []
  | x :: r => toJson x :: listToJson r

end

end Argument

def Call.toJson (call : Call) : Json :=
  .object [("name", .string call.name), ("arguments", .array (Argument.listToJson call.arguments))]

def Expression.toJson (expression : Expression) : Json :=
  .object [("function", expression.function.toJson),
    ("members", .array (expression.members.map Json.rawText))]

def ConfigValue.toJson : ConfigValue → Json
  | .literal text => .tagged "literal" (.string text)
  | .expression tree => .tagged "expression" tree.toJson

def TokenKind.toJson (kind : TokenKind) : Json := .string kind.name

def ParseErrorKind.toJson (kind : ParseErrorKind) : Json := .string kind.name

def Found.toJson : Found → Json
  | .token kind => .tagged "token" kind.toJson
  | .character c => .tagged "char" (.string c.toString)
  | .endOfInput => .object [("type", .string "end_of_input")]

def ParseError.toJson : ParseError → Json
  | .lexical position found expected =>
    .object [("kind", .string "lexical"), ("position", .natural position),
      ("found", found.toJson), ("expected", .array (expected.map TokenKind.toJson))]
  | .unexpectedToken position found text expected =>
    .object [("kind", .string "unexpected_token"), ("position", .natural position),
      ("found", found.toJson), ("text", .string text),
      ("expected", .array (expected.map TokenKind.toJson))]
  | .unexpectedEndOfInput position expected =>
    .object [("kind", .string "unexpected_end_of_input"), ("position", .natural position),
      ("expected", .array (expected.map TokenKind.toJson))]
  | .nestingTooDeep position limit =>
    .object [("kind", .string "nesting_too_deep"), ("position", .natural position),
      ("limit", .natural limit)]

def Options.toJson (options : Options) : Json :=
  .object [("max_depth", .natural options.maxDepth)]

end ConfigExpr
