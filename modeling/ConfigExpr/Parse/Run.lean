import ConfigExpr.Parse.State
import ConfigExpr.Token.Session

/-! Reading a source from its start to a result, as an expression or as a configuration value: one
token per step, without going back. The first error ends the run. `Reads.run_eq` says that a run has
the same result from every reader on its way. -/
namespace ConfigExpr

/-- The outermost call has depth 1. -/
structure Options where
  maxDepth : Nat := 64
  deriving DecidableEq, Repr

/-- Counts that come from outside stay below this bound, so that they fit into 64 bits. -/
def countBound : Nat := 0x10000000000000000

structure Reader where
  state : State
  cursor : Cursor
  deriving DecidableEq, Repr

inductive Step where
  | more (reader : Reader)
  | done (result : Except ParseError Expression)

namespace Reader

def start (source : String) : Reader := ⟨.start, .start source⟩

def refusal (state : State) (token : Token) : ParseError :=
  if token.kind = .endOfInput then .unexpectedEndOfInput token.start state.expected
  else .unexpectedToken token.start token.kind token.text state.expected

def pull (reader : Reader) : Cursor × Except Found Token :=
  reader.cursor.next reader.state.context

def step (limit : Nat) (reader : Reader) : Step :=
  match reader.pull with
  | (cursor, .error found) =>
    .done (.error (.lexical cursor.position found reader.state.expected))
  | (cursor, .ok token) =>
    match reader.state.advance limit token.kind token.text with
    | .go next => .more ⟨next, cursor⟩
    | .accept expression => .done (.ok expression)
    | .tooDeep => .done (.error (.nestingTooDeep token.start limit))
    | .refuse => .done (.error (refusal reader.state token))

theorem step_shortens {limit : Nat} {reader next : Reader} (h : reader.step limit = .more next) :
    next.cursor.rest.length < reader.cursor.rest.length := by
  unfold step at h
  split at h
  · simp at h
  · next after token ht =>
    split at h
    · next state hm =>
      simp only [Step.more.injEq] at h
      subst h
      refine Cursor.next_shortens ht fun hk => ?_
      rw [hk] at hm
      exact State.advance_endOfInput _ _ _ _ hm
    all_goals simp at h

def run (limit : Nat) (reader : Reader) : Except ParseError Expression :=
  match _h : reader.step limit with
  | .more next => run limit next
  | .done result => result
termination_by reader.cursor.rest.length
decreasing_by exact step_shortens _h

end Reader

def Expression.parse (options : Options) (source : String) : Except ParseError Expression :=
  (Reader.start source).run options.maxDepth

/-! Which tokens a run pulls on its way from one place to another. -/

namespace Reader

inductive Reads (limit : Nat) : Reader → List Token → Reader → Prop where
  | here {reader} : Reads limit reader [] reader
  | token {reader next last cursor token tokens} : reader.pull = (cursor, .ok token) →
      reader.step limit = .more next → Reads limit next tokens last →
      Reads limit reader (token :: tokens) last

theorem Reads.append {limit : Nat} {a b c : Reader} {s t : List Token}
    (first : Reads limit a s b) (second : Reads limit b t c) : Reads limit a (s ++ t) c := by
  induction first with
  | here => exact second
  | token pulled moved _ ih => exact .token pulled moved (ih second)

theorem Reads.run_eq {limit : Nat} {a b : Reader} {s : List Token} (reads : Reads limit a s b) :
    a.run limit = b.run limit := by
  induction reads with
  | here => rfl
  | token _ moved _ ih =>
    rw [run]
    split
    · next next h =>
      rw [moved, Step.more.injEq] at h
      rw [← h, ih]
    · next h =>
      rw [moved] at h
      contradiction

end Reader

/-! Configuration values: a text is a literal unless it stands in brackets. -/

inductive ConfigValue where
  | literal (text : String)
  | expression (expression : Expression)
  deriving DecidableEq, Repr

/-- A text in brackets is an expression. Two brackets at the front make it a literal again. -/
def isExpressionText (text : String) : Bool :=
  match text.toList with
  | '[' :: '[' :: _ => false
  | '[' :: r => r.getLast? == some ']'
  | _ => false

/-- A literal that starts with two brackets loses one of them. -/
def ConfigValue.parse (options : Options) (text : String) : Except ParseError ConfigValue :=
  match text.toList with
  | '[' :: '[' :: r => .ok (.literal (String.ofList ('[' :: r)))
  | _ =>
    if isExpressionText text then (Expression.parse options text).map .expression
    else .ok (.literal text)

end ConfigExpr
