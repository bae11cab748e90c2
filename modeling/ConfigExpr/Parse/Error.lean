import ConfigExpr.Token.Lexeme

/-! Why a source is not an expression. Positions count characters from the start of the source. -/
namespace ConfigExpr

inductive ParseError where
  /-- No token starts here. -/
  | lexical (position : Nat) (found : Found) (expected : List TokenKind)
  | unexpectedToken (position : Nat) (found : TokenKind) (text : String) (expected : List TokenKind)
  | unexpectedEndOfInput (position : Nat) (expected : List TokenKind)
  /-- The position is that of the name of the first call beyond the limit. -/
  | nestingTooDeep (position : Nat) (limit : Nat)
  deriving DecidableEq, Repr

inductive ParseErrorKind where
  | lexical
  | unexpectedToken
  | unexpectedEndOfInput
  | nestingTooDeep
  deriving DecidableEq, Repr

namespace ParseErrorKind

def all : List ParseErrorKind := [lexical, unexpectedToken, unexpectedEndOfInput, nestingTooDeep]

def name : ParseErrorKind → String
  | lexical => "Lexical"
  | unexpectedToken => "UnexpectedToken"
  | unexpectedEndOfInput => "UnexpectedEndOfInput"
  | nestingTooDeep => "NestingTooDeep"

def ofName? (name : String) : Option ParseErrorKind := all.find? (·.name == name)

@[simp] theorem ofName?_name (kind : ParseErrorKind) : ofName? kind.name = some kind := by
  cases kind <;> decide

end ParseErrorKind

def joinLabels : List TokenKind → String
  | [] => "nothing"
  | [kind] => kind.label
  | [kind, last] => kind.label ++ " or " ++ last.label
  | kind :: next :: r => kind.label ++ ", " ++ joinLabels (next :: r)

def Found.describe : Found → String
  | .token kind => kind.label
  | .character c => "character " ++ displaySingle c
  | .endOfInput => "end of input"

namespace ParseError

def kind : ParseError → ParseErrorKind
  | lexical .. => .lexical
  | unexpectedToken .. => .unexpectedToken
  | unexpectedEndOfInput .. => .unexpectedEndOfInput
  | nestingTooDeep .. => .nestingTooDeep

def position : ParseError → Nat
  | lexical position _ _ => position
  | unexpectedToken position _ _ _ => position
  | unexpectedEndOfInput position _ => position
  | nestingTooDeep position _ => position

def expected : ParseError → List TokenKind
  | lexical _ _ expected => expected
  | unexpectedToken _ _ _ expected => expected
  | unexpectedEndOfInput _ expected => expected
  | nestingTooDeep _ _ => []

/-- What stands at the position. A call that nests too deep is met at its name. -/
def found : ParseError → Found
  | lexical _ found _ => found
  | unexpectedToken _ found _ _ => .token found
  | unexpectedEndOfInput _ _ => .endOfInput
  | nestingTooDeep _ _ => .token .functionName

def message : ParseError → String
  | lexical position found expected =>
    s!"lexical error at position {position}: unexpected {found.describe}; " ++
      s!"expected {joinLabels expected}"
  | unexpectedToken position found _ expected =>
    s!"unexpected {found.label} at position {position}; expected {joinLabels expected}"
  | unexpectedEndOfInput position expected =>
    s!"unexpected end of input at position {position}; expected {joinLabels expected}"
  | nestingTooDeep position limit =>
    s!"function calls nested deeper than {limit} at position {position}"

end ParseError

end ConfigExpr
