import ConfigExpr.Token.Session
import ConfigExpr.Tree.Basic

/-! Reading an expression by recursive descent: one function for a call and one for an argument,
each of which calls the other. The depth of the calls is kept by hand, in a counter of 64 bits that
is raised where a call begins and lowered where it ends. An error ends the descent and leaves the
counter as it stands. Every pull of a token and every change of the counter is noted as a moment. -/
namespace ConfigExpr

inductive MomentKind where
  | pull (before : Cursor) (result : Except Found Token)
  | enter (before : UInt64)
  | leave (before : UInt64)

/-- What has just happened, and how things stand after it. `active` is the number of calls being
read. It is no state: every function hands it to the functions that it calls. -/
structure Moment where
  kind : MomentKind
  active : Nat
  depth : UInt64
  cursor : Cursor

/-- The newest moment comes last. -/
structure Descent where
  cursor : Cursor
  depth : UInt64
  moments : List Moment

def ParseError.unexpected (token : Token) (expected : List TokenKind) : ParseError :=
  if token.kind = .endOfInput then .unexpectedEndOfInput token.start expected
  else .unexpectedToken token.start token.kind token.text expected

def argumentKinds : List TokenKind := [.functionName, .quote, .number, .trueWord, .falseWord]

namespace Descent

def start (source : String) : Descent := ⟨.start source, 0, []⟩

@[reducible] def left (d : Descent) : Nat := d.cursor.rest.length

@[reducible] def enter (d : Descent) (active : Nat) : Descent :=
  ⟨d.cursor, d.depth + 1, d.moments ++ [⟨.enter d.depth, active, d.depth + 1, d.cursor⟩]⟩

@[reducible] def leave (d : Descent) (active : Nat) : Descent :=
  ⟨d.cursor, d.depth - 1, d.moments ++ [⟨.leave d.depth, active, d.depth - 1, d.cursor⟩]⟩

/-- What a function comes to, and where. No more than a number of characters are left there. -/
structure Outcome (bound : Nat) (α : Type) where
  result : Except ParseError α
  last : Descent
  onward : last.left ≤ bound

namespace Outcome

variable {α β : Type} {bound : Nat}

def ok (x : α) (d : Descent) : Outcome d.left α := ⟨.ok x, d, Nat.le_refl _⟩

def error (error : ParseError) (d : Descent) : Outcome d.left α := ⟨.error error, d, Nat.le_refl _⟩

def andThen (a : Outcome bound α) (next : ∀ x, a.result = .ok x → Outcome a.last.left β) :
    Outcome bound β :=
  match h : a.result with
  | .ok x => ⟨(next x h).result, (next x h).last, Nat.le_trans (next x h).onward a.onward⟩
  | .error error => ⟨.error error, a.last, a.onward⟩

def map (f : α → β) (a : Outcome bound α) : Outcome bound β :=
  a.andThen fun x _ => ok (f x) a.last

/-- What holds of a value where it is reached, and of an error where it is met. -/
def Meets (a : Outcome bound α) (value : α → Descent → Prop) (error : ParseError → Descent → Prop) :
    Prop :=
  (∀ x, a.result = .ok x → value x a.last) ∧ ∀ e, a.result = .error e → error e a.last

section

variable {a : Outcome bound α} {P : α → Descent → Prop} {Q : β → Descent → Prop}
  {E : ParseError → Descent → Prop}

theorem meets_ok {x : α} {d : Descent} (h : P x d) : (ok x d).Meets P E := by
  constructor
  · intro y hy
    obtain rfl := Except.ok.inj hy
    exact h
  · intro e he
    contradiction

theorem meets_error {e : ParseError} {d : Descent} (h : E e d) : (error e d).Meets P E := by
  constructor
  · intro x hx
    contradiction
  · intro e' he
    obtain rfl := Except.error.inj he
    exact h

theorem meets_andThen {next : ∀ x, a.result = .ok x → Outcome a.last.left β} (first : a.Meets P E)
    (rest : ∀ x h, P x a.last → (next x h).Meets Q E) : (a.andThen next).Meets Q E := by
  unfold andThen
  split
  · next x h => exact rest x h (first.1 x h)
  · next e h => exact meets_error (first.2 e h)

theorem Meets.imp {Q : α → Descent → Prop} (h : a.Meets P E) (hQ : ∀ x d, P x d → Q x d) :
    a.Meets Q E :=
  ⟨fun x hx => hQ x a.last (h.1 x hx), h.2⟩

theorem meets_map {f : α → β} (h : a.Meets (fun x d => Q (f x) d) E) : (a.map f).Meets Q E :=
  meets_andThen h fun _ _ hx => meets_ok hx

end

end Outcome

def pull (d : Descent) (active : Nat) (context : Context) (expected : List TokenKind) :
    Outcome d.left Token :=
  let next := d.cursor.next context
  { result := next.2.mapError fun found => .lexical next.1.position found expected
    last := ⟨next.1, d.depth, d.moments ++ [⟨.pull d.cursor next.2, active, d.depth, next.1⟩]⟩
    onward := Cursor.next_length_le context d.cursor }

def expect (d : Descent) (active : Nat) (context : Context) (kind : TokenKind) :
    Outcome d.left Token :=
  let pulled := d.pull active context [kind]
  pulled.andThen fun token _ =>
    if token.kind = kind then .ok token pulled.last
    else .error (.unexpected token [kind]) pulled.last

section

variable {d : Descent} {active : Nat} {context : Context} {token : Token}
  {expected : List TokenKind}

theorem pull_meets {P : Token → Descent → Prop} {E : ParseError → Descent → Prop}
    (value : ∀ after token, d.cursor.next context = (after, .ok token) →
      P token ⟨after, d.depth, d.moments ++ [⟨.pull d.cursor (.ok token), active, d.depth, after⟩]⟩)
    (error : ∀ after found, d.cursor.next context = (after, .error found) →
      E (.lexical after.position found expected) ⟨after, d.depth,
        d.moments ++ [⟨.pull d.cursor (.error found), active, d.depth, after⟩]⟩) :
    (d.pull active context expected).Meets P E := by
  cases hn : d.cursor.next context with
  | mk after result =>
    unfold pull
    simp only [hn]
    cases result with
    | ok token =>
      specialize value after token hn
      constructor
      · intro x hx
        obtain rfl := Except.ok.inj hx
        exact value
      · intro e he
        contradiction
    | error found =>
      specialize error after found hn
      constructor
      · intro x hx
        contradiction
      · intro e he
        obtain rfl := Except.error.inj he
        exact error

theorem expect_meets {kind : TokenKind} {P : Token → Descent → Prop}
    {E : ParseError → Descent → Prop}
    (h : (d.pull active context [kind]).Meets
      (fun token last => if token.kind = kind then P token last
        else E (.unexpected token [kind]) last) E) :
    (d.expect active context kind).Meets P E := by
  unfold expect
  refine Outcome.meets_andThen h ?_
  intro token _ met
  split
  · next hk =>
    rw [if_pos hk] at met
    exact Outcome.meets_ok met
  · next hk =>
    rw [if_neg hk] at met
    exact Outcome.meets_error met

theorem pull_shortens (pulled : (d.pull active context expected).result = .ok token)
    (hk : token.kind ≠ .endOfInput) : (d.pull active context expected).last.left < d.left := by
  have meets : (d.pull active context expected).Meets
      (fun token last => token.kind ≠ .endOfInput → last.left < d.left) fun _ _ => True :=
    pull_meets (fun _ _ next => Cursor.next_shortens next) fun _ _ _ => trivial
  exact meets.1 token pulled hk

theorem expect_shortens {kind : TokenKind}
    (pulled : (d.expect active context kind).result = .ok token) (hk : kind ≠ .endOfInput) :
    (d.expect active context kind).last.left < d.left := by
  have meets : (d.expect active context kind).Meets
      (fun _ last => last.left < d.left) fun _ _ => True := by
    apply expect_meets
    apply pull_meets
    · intro after token next
      split
      · next h => exact Cursor.next_shortens next (h ▸ hk)
      · trivial
    · intros
      trivial
  exact meets.1 token pulled

theorem left_lt_of_opening (opened : (d.expect active context .leftParen).result = .ok token)
    (behind : Context) (expected : List TokenKind) :
    ((d.expect active context .leftParen).last.pull active behind expected).last.left < d.left :=
  Nat.lt_of_le_of_lt (Outcome.onward _) (expect_shortens opened (by decide))

theorem left_lt_of_comma {α : Type} {one : Outcome d.left α}
    (pulled : (one.last.pull active context expected).result = .ok token)
    (hk : token.kind = .comma) (behind : Context) (others : List TokenKind) :
    ((one.last.pull active context expected).last.pull active behind others).last.left < d.left :=
  Nat.lt_of_le_of_lt (Outcome.onward _)
    (Nat.lt_of_lt_of_le (pull_shortens pulled (by simp [hk])) one.onward)

theorem left_lt_of_dot (pulled : (d.pull active context expected).result = .ok token)
    (hk : token.kind = .dot) (behind : Context) (kind : TokenKind) :
    ((d.pull active context expected).last.expect active behind kind).last.left < d.left :=
  Nat.lt_of_le_of_lt (Outcome.onward _) (pull_shortens pulled (by simp [hk]))

end

/-- The rest of a string literal, behind its first quote. -/
def string (d : Descent) (active : Nat) : Outcome d.left String :=
  let body := d.pull active .inString [.stringChars, .quote]
  body.andThen fun token _ =>
    match token.kind with
    | .quote => .ok "" body.last
    | .stringChars => (body.last.expect active .inString .quote).map fun _ => token.text
    | _ => .error (.unexpected token [.stringChars, .quote]) body.last

mutual

/-- The rest of a call, behind its name. -/
def call (d : Descent) (limit : UInt64) (active : Nat) (name : Token) : Outcome d.left Call :=
  let entered := d.enter (active + 1)
  if limit < entered.depth then .error (.nestingTooDeep name.start limit.toNat) entered
  else
    let opening := entered.expect (active + 1) .topLevel .leftParen
    opening.andThen fun _ opened =>
      let first := opening.last.pull (active + 1) .inArguments (.rightParen :: argumentKinds)
      first.andThen fun token _ =>
        if token.kind = .rightParen then .ok ⟨name.text, []⟩ (first.last.leave active)
        else
          let inner := first.last.arguments limit (active + 1) token (.rightParen :: argumentKinds)
          inner.andThen fun xs _ => .ok ⟨name.text, xs⟩ (inner.last.leave active)
termination_by (d.left, 0)
decreasing_by exact .left _ _ (left_lt_of_opening opened ..)

/-- One argument or more and the closing parenthesis, from the first token of the first one on. -/
def arguments (d : Descent) (limit : UInt64) (active : Nat) (token : Token)
    (expected : List TokenKind) : Outcome d.left (List Argument) :=
  let one := d.argument limit active token expected
  one.andThen fun x _ =>
    let separator := one.last.pull active .topLevel [.comma, .rightParen]
    separator.andThen fun mark _pulled =>
      match _hk : mark.kind with
      | .comma =>
        let next := separator.last.pull active .inArguments argumentKinds
        next.andThen fun token _ =>
          (next.last.arguments limit active token argumentKinds).map (x :: ·)
      | .rightParen => .ok [x] separator.last
      | _ => .error (.unexpected mark [.comma, .rightParen]) separator.last
termination_by (d.left, 2)
decreasing_by
  · exact .right _ (by decide)
  · exact .left _ _ (left_lt_of_comma _pulled _hk ..)

def argument (d : Descent) (limit : UInt64) (active : Nat) (token : Token)
    (expected : List TokenKind) : Outcome d.left Argument :=
  match token.kind with
  | .functionName => (d.call limit active token).map Call.toArgument
  | .quote => (d.string active).map .string
  | .number => .ok (.number token.text) d
  | .trueWord => .ok (.boolean true) d
  | .falseWord => .ok (.boolean false) d
  | _ => .error (.unexpected token expected) d
termination_by (d.left, 1)
decreasing_by exact .right _ (by decide)

end

def members (d : Descent) : Outcome d.left (List String) :=
  let mark := d.pull 0 .topLevel [.dot, .rightBracket]
  mark.andThen fun token _pulled =>
    match _hk : token.kind with
    | .dot =>
      let name := mark.last.expect 0 .afterDot .memberName
      name.andThen fun member _ => name.last.members.map (member.text :: ·)
    | .rightBracket => .ok [] mark.last
    | _ => .error (.unexpected token [.dot, .rightBracket]) mark.last
termination_by d.left
decreasing_by exact left_lt_of_dot _pulled _hk ..

def parse (limit : UInt64) (source : String) : Outcome (start source).left Expression :=
  let bracket := (start source).expect 0 .topLevel .leftBracket
  bracket.andThen fun _ _ =>
    let name := bracket.last.expect 0 .topLevel .functionName
    name.andThen fun token _ =>
      let function := name.last.call limit 0 token
      function.andThen fun call _ =>
        let members := function.last.members
        members.andThen fun names _ =>
          (members.last.expect 0 .topLevel .endOfInput).map fun _ => ⟨call, names⟩

end Descent

end ConfigExpr
