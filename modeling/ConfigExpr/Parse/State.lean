import ConfigExpr.Token.Lexeme
import ConfigExpr.Tree.Basic

/-! Places in the grammar

    expression := '[' call ( '.' member )* ']'
    call       := name '(' ( argument ( ',' argument )* )? ')'
    argument   := call | string | number | 'true' | 'false'
    string     := quote characters? quote

and what each kind of token does there. A place fixes the context under which the next token is
cut, and one token decides every move. `advance_eq_refuse_iff` says that `State.expected` lists
exactly the kinds that a place does not refuse. -/
namespace ConfigExpr

/-- The newest argument comes first. -/
structure OpenCall where
  name : String
  arguments : List Argument
  deriving DecidableEq, Repr

/-- The calls open at a place. `outer` holds those around the innermost, from the inside out. -/
structure OpenCalls where
  innermost : OpenCall
  outer : List OpenCall
  depth : Nat
  deriving DecidableEq, Repr

inductive State where
  | start
  | outerName
  /-- Before the opening parenthesis of the innermost call. -/
  | callOpening (calls : OpenCalls)
  | firstArgument (calls : OpenCalls)
  | nextArgument (calls : OpenCalls)
  | stringBody (calls : OpenCalls)
  | stringEnd (calls : OpenCalls) (text : String)
  | afterArgument (calls : OpenCalls)
  /-- After the outer call or a member name. The newest member comes first. -/
  | afterCall (function : Call) (members : List String)
  | memberName (function : Call) (members : List String)
  | ending (expression : Expression)
  deriving DecidableEq, Repr

inductive Move where
  | go (next : State)
  | accept (expression : Expression)
  | tooDeep
  | refuse
  deriving DecidableEq, Repr

namespace OpenCalls

def outermost (name : String) : OpenCalls := ⟨⟨name, []⟩, [], 1⟩

def enter (calls : OpenCalls) (name : String) : OpenCalls :=
  ⟨⟨name, []⟩, calls.innermost :: calls.outer, calls.depth + 1⟩

def push (calls : OpenCalls) (argument : Argument) : OpenCalls :=
  { calls with
    innermost := ⟨calls.innermost.name, argument :: calls.innermost.arguments⟩ }

/-- Closing the innermost call makes it an argument of the call around it. -/
def leave (calls : OpenCalls) : State :=
  let call : Call := ⟨calls.innermost.name, calls.innermost.arguments.reverse⟩
  match calls.outer with
  | [] => .afterCall call []
  | parent :: outer =>
    .afterArgument (OpenCalls.push ⟨parent, outer, calls.depth - 1⟩ call.toArgument)

end OpenCalls

namespace State

def context : State → Context
  | firstArgument _ | nextArgument _ => .inArguments
  | stringBody _ | stringEnd _ _ => .inString
  | memberName _ _ => .afterDot
  | _ => .topLevel

/-- The kinds of token that a place accepts, in the order in which messages list them. -/
def expected : State → List TokenKind
  | start => [.leftBracket]
  | outerName => [.functionName]
  | callOpening _ => [.leftParen]
  | firstArgument _ => [.rightParen, .functionName, .quote, .number, .trueWord, .falseWord]
  | nextArgument _ => [.functionName, .quote, .number, .trueWord, .falseWord]
  | stringBody _ => [.stringChars, .quote]
  | stringEnd _ _ => [.quote]
  | afterArgument _ => [.comma, .rightParen]
  | afterCall _ _ => [.dot, .rightBracket]
  | memberName _ _ => [.memberName]
  | ending _ => [.endOfInput]

def startArgument (limit : Nat) (calls : OpenCalls) (kind : TokenKind) (text : String) : Move :=
  match kind with
  | .functionName =>
    if calls.depth < limit then .go (.callOpening (calls.enter text)) else .tooDeep
  | .quote => .go (.stringBody calls)
  | .number => .go (.afterArgument (calls.push (.number text)))
  | .trueWord => .go (.afterArgument (calls.push (.boolean true)))
  | .falseWord => .go (.afterArgument (calls.push (.boolean false)))
  | _ => .refuse

def advance (limit : Nat) (state : State) (kind : TokenKind) (text : String) : Move :=
  match state, kind with
  | start, .leftBracket => .go .outerName
  | outerName, .functionName =>
    if 0 < limit then .go (.callOpening (.outermost text)) else .tooDeep
  | callOpening calls, .leftParen => .go (.firstArgument calls)
  | firstArgument calls, .rightParen => .go calls.leave
  | firstArgument calls, kind => startArgument limit calls kind text
  | nextArgument calls, kind => startArgument limit calls kind text
  | stringBody calls, .quote => .go (.afterArgument (calls.push (.string "")))
  | stringBody calls, .stringChars => .go (.stringEnd calls text)
  | stringEnd calls content, .quote => .go (.afterArgument (calls.push (.string content)))
  | afterArgument calls, .comma => .go (.nextArgument calls)
  | afterArgument calls, .rightParen => .go calls.leave
  | afterCall function members, .dot => .go (.memberName function members)
  | afterCall function members, .rightBracket => .go (.ending ⟨function, members.reverse⟩)
  | memberName function members, .memberName => .go (.afterCall function (text :: members))
  | ending expression, .endOfInput => .accept expression
  | _, _ => .refuse

theorem advance_eq_refuse_iff (limit : Nat) (state : State) (kind : TokenKind) (text : String) :
    state.advance limit kind text = .refuse ↔ kind ∉ state.expected := by
  cases state <;> cases kind <;> simp [advance, startArgument, expected] <;> split <;> simp

theorem advance_endOfInput (limit : Nat) (state next : State) (text : String) :
    state.advance limit .endOfInput text ≠ .go next := by
  cases state <;> simp [advance, startArgument]

end State

end ConfigExpr
