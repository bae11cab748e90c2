import ConfigExpr.Parse.Run
import ConfigExpr.Proofs.Pull

/-! What one step of a run does, and how a run ends. `Moves` are the moves of the grammar without
the limit, `Shifts` the steps of a run that go on, `Fails` those that give an error.
`run_eq_iff` splits a run into shifts and one last step, and `runWithin?` computes the result of a
given source. -/
namespace ConfigExpr

namespace State

inductive Awaits : State → OpenCalls → Prop where
  | first {calls} : Awaits (.firstArgument calls) calls
  | next {calls} : Awaits (.nextArgument calls) calls

inductive Moves : State → TokenKind → String → State → Prop where
  | bracket {text} : Moves .start .leftBracket text .outerName
  | outerName {text} : Moves .outerName .functionName text (.callOpening (.outermost text))
  | opening {calls text} : Moves (.callOpening calls) .leftParen text (.firstArgument calls)
  | noArguments {calls text} : Moves (.firstArgument calls) .rightParen text calls.leave
  | innerName {state calls text} : Awaits state calls →
      Moves state .functionName text (.callOpening (calls.enter text))
  | openQuote {state calls text} : Awaits state calls → Moves state .quote text (.stringBody calls)
  | number {state calls text} : Awaits state calls →
      Moves state .number text (.afterArgument (calls.push (.number text)))
  | trueWord {state calls text} : Awaits state calls →
      Moves state .trueWord text (.afterArgument (calls.push (.boolean true)))
  | falseWord {state calls text} : Awaits state calls →
      Moves state .falseWord text (.afterArgument (calls.push (.boolean false)))
  | emptyString {calls text} :
      Moves (.stringBody calls) .quote text (.afterArgument (calls.push (.string "")))
  | stringChars {calls text} :
      Moves (.stringBody calls) .stringChars text (.stringEnd calls text)
  | closeQuote {calls content text} :
      Moves (.stringEnd calls content) .quote text (.afterArgument (calls.push (.string content)))
  | comma {calls text} : Moves (.afterArgument calls) .comma text (.nextArgument calls)
  | closing {calls text} : Moves (.afterArgument calls) .rightParen text calls.leave
  | dot {function members text} :
      Moves (.afterCall function members) .dot text (.memberName function members)
  | closeBracket {function members text} :
      Moves (.afterCall function members) .rightBracket text (.ending ⟨function, members.reverse⟩)
  | memberName {function members text} :
      Moves (.memberName function members) .memberName text (.afterCall function (text :: members))

def depth : State → Nat
  | callOpening calls | firstArgument calls | nextArgument calls | stringBody calls
  | stringEnd calls _ | afterArgument calls => calls.depth
  | _ => 0

theorem Awaits.context_eq {state : State} {calls : OpenCalls} (awaits : Awaits state calls) :
    state.context = .inArguments := by
  cases awaits <;> rfl

theorem Awaits.outside {state : State} {calls : OpenCalls} (awaits : Awaits state calls) :
    state.context ≠ .inString :=
  Context.ne_inString (.inr awaits.context_eq)

theorem Awaits.depth_eq {state : State} {calls : OpenCalls} (awaits : Awaits state calls) :
    state.depth = calls.depth := by
  cases awaits <;> rfl

/-- Where an argument may start, only the parenthesis after an empty list is no argument. -/
theorem Awaits.advance_eq {state : State} {calls : OpenCalls} (awaits : Awaits state calls)
    (limit : Nat) {kind : TokenKind} (text : String) (h : kind ≠ .rightParen) :
    state.advance limit kind text = startArgument limit calls kind text := by
  cases awaits with
  | first =>
    cases kind with
    | rightParen => exact absurd rfl h
    | _ => rfl
  | next => rfl

theorem Awaits.moves_of_startArgument {state next : State} {calls : OpenCalls} {limit : Nat}
    {kind : TokenKind} {text : String} (awaits : Awaits state calls)
    (h : startArgument limit calls kind text = .go next) :
    Moves state kind text next ∧ (kind = .functionName → next.depth ≤ limit) := by
  cases kind with
  | functionName =>
    simp only [startArgument] at h
    split at h
    · next hd =>
      obtain rfl := Move.go.inj h
      exact ⟨.innerName awaits, fun _ => hd⟩
    · simp at h
  | quote => obtain rfl := Move.go.inj h; exact ⟨.openQuote awaits, by simp⟩
  | number => obtain rfl := Move.go.inj h; exact ⟨.number awaits, by simp⟩
  | trueWord => obtain rfl := Move.go.inj h; exact ⟨.trueWord awaits, by simp⟩
  | falseWord => obtain rfl := Move.go.inj h; exact ⟨.falseWord awaits, by simp⟩
  | _ => simp [startArgument] at h

theorem moves_of_advance {limit : Nat} {state next : State} {kind : TokenKind} {text : String}
    (h : state.advance limit kind text = .go next) :
    Moves state kind text next ∧ (kind = .functionName → next.depth ≤ limit) := by
  cases state with
  | start =>
    cases kind <;> simp only [advance, Move.go.injEq, reduceCtorEq] at h
    exact h ▸ ⟨.bracket, by simp⟩
  | outerName =>
    cases kind <;> simp only [advance, reduceCtorEq] at h
    split at h
    · next hd =>
      obtain rfl := Move.go.inj h
      exact ⟨.outerName, fun _ => hd⟩
    · simp at h
  | callOpening calls =>
    cases kind <;> simp only [advance, Move.go.injEq, reduceCtorEq] at h
    exact h ▸ ⟨.opening, by simp⟩
  | firstArgument calls =>
    by_cases hk : kind = .rightParen
    · subst hk
      obtain rfl := Move.go.inj h
      exact ⟨.noArguments, by simp⟩
    · rw [Awaits.advance_eq .first limit text hk] at h
      exact Awaits.first.moves_of_startArgument h
  | nextArgument calls => exact Awaits.next.moves_of_startArgument h
  | stringBody calls =>
    cases kind <;> simp only [advance, Move.go.injEq, reduceCtorEq] at h
    · exact h ▸ ⟨.emptyString, by simp⟩
    · exact h ▸ ⟨.stringChars, by simp⟩
  | stringEnd calls content =>
    cases kind <;> simp only [advance, Move.go.injEq, reduceCtorEq] at h
    exact h ▸ ⟨.closeQuote, by simp⟩
  | afterArgument calls =>
    cases kind <;> simp only [advance, Move.go.injEq, reduceCtorEq] at h
    · exact h ▸ ⟨.closing, by simp⟩
    · exact h ▸ ⟨.comma, by simp⟩
  | afterCall function members =>
    cases kind <;> simp only [advance, Move.go.injEq, reduceCtorEq] at h
    · exact h ▸ ⟨.closeBracket, by simp⟩
    · exact h ▸ ⟨.dot, by simp⟩
  | memberName function members =>
    cases kind <;> simp only [advance, Move.go.injEq, reduceCtorEq] at h
    exact h ▸ ⟨.memberName, by simp⟩
  | ending expression => cases kind <;> simp [advance] at h

/-- The limit only decides whether a call may be entered. -/
theorem advance_eq_go_iff {limit : Nat} {state next : State} {kind : TokenKind} {text : String} :
    state.advance limit kind text = .go next ↔
      Moves state kind text next ∧ (kind = .functionName → next.depth ≤ limit) := by
  constructor
  · exact moves_of_advance
  · rintro ⟨h, hd⟩
    cases h with
    | outerName => exact if_pos (hd rfl)
    | innerName awaits =>
      rw [awaits.advance_eq limit _ (by simp)]
      exact if_pos (hd rfl)
    | openQuote awaits => rw [awaits.advance_eq limit _ (by simp)]; rfl
    | number awaits => rw [awaits.advance_eq limit _ (by simp)]; rfl
    | trueWord awaits => rw [awaits.advance_eq limit _ (by simp)]; rfl
    | falseWord awaits => rw [awaits.advance_eq limit _ (by simp)]; rfl
    | _ => rfl

theorem advance_eq_accept_iff {limit : Nat} {state : State} {kind : TokenKind} {text : String}
    {expression : Expression} :
    state.advance limit kind text = .accept expression ↔
      state = .ending expression ∧ kind = .endOfInput := by
  cases state <;> cases kind <;> simp [advance, startArgument] <;> split <;> simp

theorem enter_eq_tooDeep_iff {depth limit : Nat} {next : State} :
    (if depth < limit then Move.go next else .tooDeep) = .tooDeep ↔ limit ≤ depth := by
  by_cases h : depth < limit
  · rw [if_pos h]
    exact iff_of_false (by simp) (by omega)
  · rw [if_neg h]
    exact iff_of_true rfl (by omega)

theorem advance_eq_tooDeep_iff {limit : Nat} {state : State} {kind : TokenKind} {text : String} :
    state.advance limit kind text = .tooDeep ↔
      kind = .functionName ∧ kind ∈ state.expected ∧ limit ≤ state.depth := by
  by_cases hk : kind = .functionName
  · subst hk
    cases state <;> simp only [advance, startArgument, enter_eq_tooDeep_iff] <;>
      simp [expected, depth]
  · cases state <;> cases kind <;> simp [advance, startArgument] at hk ⊢

/-- Where the limit leaves room for one call more, every expected kind leads on. -/
theorem exists_moves {state : State} {kind : TokenKind} (h : kind ∈ state.expected)
    (hk : kind ≠ .endOfInput) (text : String) :
    ∃ next, Moves state kind text next ∧ (kind = .functionName → next.depth ≤ state.depth + 1) := by
  cases hm : state.advance (state.depth + 1) kind text with
  | go next => exact ⟨next, advance_eq_go_iff.mp hm⟩
  | accept expression => exact absurd (advance_eq_accept_iff.mp hm).2 hk
  | tooDeep =>
    obtain ⟨-, -, hd⟩ := advance_eq_tooDeep_iff.mp hm
    omega
  | refuse => exact absurd h ((advance_eq_refuse_iff ..).mp hm)

end State

namespace Reader

open State

inductive Shifts (limit : Nat) : Reader → Token → Reader → Prop where
  | mk {p w text r state kind next} : state.context.Skips w → state.context.Spells kind text →
      (∀ c ∈ r.head?, ¬ state.context.absorbs kind c) →
      Moves state kind (String.ofList text) next →
      (kind = .functionName → next.depth ≤ limit) →
      Shifts limit ⟨state, ⟨p, w ++ text ++ r⟩⟩ ⟨kind, String.ofList text, p + w.length⟩
        ⟨next, ⟨p + w.length + text.length, r⟩⟩

inductive Fails (limit : Nat) (reader : Reader) : ParseError → Prop where
  | lexical {after found} :
      Cursor.Pulls reader.state.context reader.cursor after (.error found) →
      Fails limit reader (.lexical after.position found reader.state.expected)
  | refused {after token} :
      Cursor.Pulls reader.state.context reader.cursor after (.ok token) →
      token.kind ∉ reader.state.expected → Fails limit reader (refusal reader.state token)
  | tooDeep {after token} :
      Cursor.Pulls reader.state.context reader.cursor after (.ok token) →
      token.kind = .functionName → token.kind ∈ reader.state.expected →
      limit ≤ reader.state.depth → Fails limit reader (.nestingTooDeep token.start limit)

theorem refusal_eq {state : State} {token : Token} (h : token.kind ≠ .endOfInput) :
    refusal state token =
      .unexpectedToken token.start token.kind token.text state.expected :=
  if_neg h

theorem refusal_position (state : State) (token : Token) :
    (refusal state token).position = token.start := by
  unfold refusal
  split <;> rfl

theorem refusal_expected (state : State) (token : Token) :
    (refusal state token).expected = state.expected := by
  unfold refusal
  split <;> rfl

/-- An error stands behind what the place skips. Only a name that may not be entered is not told
by what the place expects. -/
theorem Fails.gap {limit : Nat} {reader : Reader} {error : ParseError}
    (h : Fails limit reader error) :
    ∃ w r, reader.cursor.rest = w ++ r ∧ reader.state.context.Skips w ∧
      error.position = reader.cursor.position + w.length ∧
      (error.kind ≠ .nestingTooDeep → error.expected = reader.state.expected) := by
  cases h with
  | lexical pulls =>
    obtain ⟨w, r, hr, skips, hp⟩ := pulls.error_position
    exact ⟨w, r, hr, skips, hp, fun _ => rfl⟩
  | refused pulls _ =>
    obtain ⟨w, r, hr, skips, hp⟩ := pulls.token_start
    exact ⟨w, r, hr, skips, (refusal_position ..).trans hp, fun _ => refusal_expected ..⟩
  | tooDeep pulls _ _ _ =>
    obtain ⟨w, r, hr, skips, hp⟩ := pulls.token_start
    exact ⟨w, r, hr, skips, hp, fun hk => absurd rfl hk⟩

theorem shifts_of_step {limit : Nat} {reader next : Reader} {after : Cursor} {token : Token}
    (pulled : reader.pull = (after, .ok token)) (moved : reader.step limit = .more next) :
    Shifts limit reader token next := by
  obtain ⟨state, cursor⟩ := reader
  simp only [step, pulled] at moved
  split at moved
  · next state' hm =>
    obtain rfl := Step.more.inj moved
    obtain ⟨moves, hd⟩ := advance_eq_go_iff.mp hm
    cases Cursor.pulls_iff.mpr pulled with
    | token skips spells ends => exact .mk skips spells ends moves hd
    | endOfInput => cases moves
  all_goals simp at moved

theorem Shifts.pull_eq {limit : Nat} {reader next : Reader} {token : Token}
    (h : Shifts limit reader token next) : reader.pull = (next.cursor, .ok token) := by
  cases h with
  | mk skips spells ends _ _ => exact Cursor.pulls_iff.mp (.token skips spells ends)

theorem Shifts.step_eq {limit : Nat} {reader next : Reader} {token : Token}
    (h : Shifts limit reader token next) : reader.step limit = .more next := by
  have pulled := h.pull_eq
  cases h with
  | mk skips spells ends moves hd =>
    simp only [step, pulled, advance_eq_go_iff.mpr ⟨moves, hd⟩]

theorem Shifts.rest_eq {limit : Nat} {reader next : Reader} {token : Token}
    (h : Shifts limit reader token next) :
    ∃ v, reader.cursor.rest = v ++ next.cursor.rest ∧ v ≠ [] ∧
      next.cursor.position = reader.cursor.position + v.length := by
  cases h with
  | @mk p w text r state kind next _ spells _ _ _ =>
    exact ⟨w ++ text, rfl, by simp [spells.ne_nil], by simp [Nat.add_assoc]⟩

theorem Reads.preserves {limit : Nat} {P : Reader → Prop} {reader last : Reader}
    {tokens : List Token} (reads : Reads limit reader tokens last)
    (shift : ∀ {a b : Reader} {token : Token}, Shifts limit a token b → P a → P b)
    (h : P reader) : P last := by
  induction reads with
  | here => exact h
  | token pulled moved _ ih => exact ih (shift (shifts_of_step pulled moved) h)

theorem Shifts.mono {low high : Nat} {reader next : Reader} {token : Token}
    (h : Shifts low reader token next) (hl : low ≤ high) : Shifts high reader token next := by
  cases h with
  | mk skips spells ends moves hd =>
    exact .mk skips spells ends moves fun hk => Nat.le_trans (hd hk) hl

theorem Reads.mono {low high : Nat} {reader last : Reader} {tokens : List Token}
    (reads : Reads low reader tokens last) (hl : low ≤ high) : Reads high reader tokens last := by
  induction reads with
  | here => exact .here
  | token pulled moved _ ih =>
    have shifts := (shifts_of_step pulled moved).mono hl
    exact .token shifts.pull_eq shifts.step_eq ih

theorem Reads.rest_eq {limit : Nat} {reader last : Reader} {tokens : List Token}
    (reads : Reads limit reader tokens last) :
    ∃ v, reader.cursor.rest = v ++ last.cursor.rest ∧
      last.cursor.position = reader.cursor.position + v.length := by
  induction reads with
  | here => exact ⟨[], rfl, rfl⟩
  | token pulled moved _ ih =>
    obtain ⟨u, hu, -, hp⟩ := (shifts_of_step pulled moved).rest_eq
    obtain ⟨v, hv, hq⟩ := ih
    exact ⟨u ++ v, by simp [hu, hv], by simp [hp, hq, Nat.add_assoc]⟩

theorem step_eq_accept_iff {limit : Nat} {reader : Reader} {expression : Expression} :
    reader.step limit = .done (.ok expression) ↔
      reader.state = .ending expression ∧ Grammar.Blanks reader.cursor.rest := by
  obtain ⟨state, cursor⟩ := reader
  constructor
  · intro h
    unfold step at h
    split at h
    · simp at h
    · next after token pulled =>
      split at h <;> simp only [Step.done.injEq, Except.ok.injEq, reduceCtorEq] at h
      next e accepted =>
      obtain ⟨rfl, hk⟩ := advance_eq_accept_iff.mp accepted
      subst h
      cases Cursor.pulls_iff.mpr pulled with
      | token _ spells _ => exact absurd hk spells.kind_ne_endOfInput
      | endOfInput _ blanks => exact ⟨rfl, blanks⟩
  · rintro ⟨rfl, blanks⟩
    have pulls : Cursor.Pulls .topLevel cursor _ _ := .endOfInput (by simp) blanks
    simp only [step, pull, context, Cursor.pulls_iff.mp pulls]
    rfl

theorem step_eq_error_iff {limit : Nat} {reader : Reader} {error : ParseError} :
    reader.step limit = .done (.error error) ↔ Fails limit reader error := by
  constructor
  · intro h
    unfold step at h
    split at h
    · next after found pulled =>
      obtain rfl := Except.error.inj (Step.done.inj h)
      exact .lexical (Cursor.pulls_iff.mpr pulled)
    · next after token pulled =>
      have pulls := Cursor.pulls_iff.mpr pulled
      split at h <;> simp only [Step.done.injEq, Except.error.injEq, reduceCtorEq] at h <;> subst h
      · next deep =>
        obtain ⟨hk, he, hd⟩ := advance_eq_tooDeep_iff.mp deep
        exact .tooDeep pulls hk he hd
      · next refused => exact .refused pulls ((advance_eq_refuse_iff ..).mp refused)
  · intro h
    cases h with
    | lexical pulls =>
      have pulled := Cursor.pulls_iff.mp pulls
      simp only [step, pull, pulled]
    | refused pulls hk =>
      have pulled := Cursor.pulls_iff.mp pulls
      simp only [step, pull, pulled, (advance_eq_refuse_iff ..).mpr hk]
    | tooDeep pulls hk he hd =>
      have pulled := Cursor.pulls_iff.mp pulls
      simp only [step, pull, pulled, advance_eq_tooDeep_iff.mpr ⟨hk, he, hd⟩]

theorem exists_pull_of_step {limit : Nat} {reader next : Reader}
    (moved : reader.step limit = .more next) : ∃ after token, reader.pull = (after, .ok token) := by
  unfold step at moved
  split at moved
  · simp at moved
  · next after token pulled => exact ⟨after, token, pulled⟩

theorem run_eq_iff {limit : Nat} {reader : Reader} {result : Except ParseError Expression} :
    reader.run limit = result ↔
      ∃ tokens last, Reads limit reader tokens last ∧ last.step limit = .done result := by
  constructor
  · intro h
    fun_induction reader.run limit with
    | case1 reader next moved ih =>
      obtain ⟨tokens, last, reads, done⟩ := ih h
      obtain ⟨after, token, pulled⟩ := exists_pull_of_step moved
      exact ⟨token :: tokens, last, .token pulled moved reads, done⟩
    | case2 reader result' done => exact ⟨[], reader, .here, h ▸ done⟩
  · rintro ⟨tokens, last, reads, done⟩
    rw [reads.run_eq, run]
    split
    · next next moved => simp [moved] at done
    · next result' done' => exact Step.done.inj (done'.symm.trans done)

def runWithin? (limit : Nat) : Nat → Reader → Option (Except ParseError Expression)
  | 0, _ => none
  | count + 1, reader =>
    match reader.step limit with
    | .more next => runWithin? limit count next
    | .done result => some result

theorem run_eq_of_runWithin? (count : Nat) {limit : Nat} {reader : Reader}
    {result : Except ParseError Expression} (h : runWithin? limit count reader = some result) :
    reader.run limit = result := by
  induction count generalizing reader with
  | zero => contradiction
  | succ count ih =>
    rw [run]
    split
    · next next moved =>
      rw [runWithin?, moved] at h
      exact ih h
    · next result' done =>
      rw [runWithin?, done] at h
      exact Option.some.inj h

end Reader

end ConfigExpr
