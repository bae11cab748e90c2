import ConfigExpr.Proofs.Continuation

/-! The text before an error is the beginning of an expression, and the error lists just the kinds
of token that may go on from there. `State.closing` ends an expression from any place,
`TokenKind.sample` takes the one step before it, and `ComesTo.unique` says that no other place
could be meant. -/
namespace ConfigExpr

open Grammar

def OpenCalls.closing (calls : OpenCalls) : List Char :=
  List.replicate (calls.outer.length + 1) ')' ++ [']']

def State.closing : State → List Char
  | start => ['[', 'f', '(', ')', ']']
  | outerName => ['f', '(', ')', ']']
  | callOpening calls => '(' :: calls.closing
  | firstArgument calls => calls.closing
  | nextArgument calls => '0' :: calls.closing
  | stringBody calls => quoteMark :: calls.closing
  | stringEnd calls _ => quoteMark :: calls.closing
  | afterArgument calls => calls.closing
  | afterCall _ _ => [']']
  | memberName _ _ => ['0', ']']
  | ending _ => []

def Accepts (limit : Nat) (state : State) (text : List Char) : Prop :=
  ∃ expression, ∀ p, Reader.run limit ⟨state, ⟨p, text⟩⟩ = .ok expression

theorem Leads.accepts {limit : Nat} {state next : State} {text rest : List Char}
    (leads : Leads limit state text rest next) (h : Accepts limit next rest) :
    Accepts limit state (text ++ rest) := by
  obtain ⟨expression, accepted⟩ := h
  exact ⟨expression, fun p => (leads.run_eq p).trans (accepted _)⟩

section

variable {limit : Nat} {w : List Char}

theorem accepts_ending (expression : Expression) (hw : Blanks w) :
    Accepts limit (.ending expression) w := by
  have done (p : Nat) : Reader.step limit ⟨.ending expression, ⟨p, w⟩⟩ = .done (.ok expression) :=
    Reader.step_eq_accept_iff.mpr ⟨rfl, hw⟩
  refine ⟨expression, ?_⟩
  intro p
  exact Reader.run_eq_iff.mpr ⟨[], _, .here, done p⟩

theorem accepts_afterCall (function : Call) (members : List String) (hw : Blanks w) :
    Accepts limit (.afterCall function members) (w ++ [']']) := by
  have closes : Leads limit (.afterCall function members) (w ++ [']']) [] _ :=
    .mark (.inl rfl) hw rfl .closeBracket
  simpa using closes.accepts (accepts_ending _ .nil)

/-- The induction is on the calls around the one that closes. -/
theorem accepts_leave (calls : OpenCalls) :
    Accepts limit calls.leave (List.replicate calls.outer.length ')' ++ [']']) := by
  obtain ⟨call, outer, depth⟩ := calls
  induction outer generalizing call depth with
  | nil => exact accepts_afterCall (w := []) _ _ .nil
  | cons parent outer ih =>
    let filled := OpenCalls.push ⟨parent, outer, depth - 1⟩
      (.call call.name call.arguments.reverse)
    have closes : Leads limit (.afterArgument filled) [')']
        (List.replicate outer.length ')' ++ [']']) filled.leave :=
      .mark (w := []) (.inl rfl) .nil rfl .closing
    exact closes.accepts (ih filled.innermost (depth - 1))

theorem accepts_closing_calls {state : State} {calls : OpenCalls}
    (place : state.context = .topLevel ∨ state.context = .inArguments) (hw : Blanks w)
    (moves : State.Moves state .rightParen (String.ofList [')']) calls.leave) :
    Accepts limit state (w ++ calls.closing) := by
  have closes : Leads limit state (w ++ [')'])
      (List.replicate calls.outer.length ')' ++ [']']) calls.leave := .mark place hw rfl moves
  simpa [OpenCalls.closing, List.replicate_succ] using closes.accepts (accepts_leave calls)

theorem accepts_callOpening (calls : OpenCalls) (hw : Blanks w) :
    Accepts limit (.callOpening calls) (w ++ '(' :: calls.closing) := by
  have opens : Leads limit (.callOpening calls) (w ++ ['(']) calls.closing _ :=
    .mark (.inl rfl) hw rfl .opening
  simpa using opens.accepts (accepts_closing_calls (w := []) (.inr rfl) .nil .noArguments)

theorem accepts_outerName (hl : 1 ≤ limit) (hw : Blanks w) :
    Accepts limit .outerName (w ++ ['f', '(', ')', ']']) := by
  have enters : Leads limit .outerName (w ++ "f".toList) ['(', ')', ']'] _ :=
    .name (.inl rfl) hw (by decide) (apart_cons (by decide) _) .outerName hl
  simpa using enters.accepts (accepts_callOpening (w := []) (.outermost "f") .nil)

theorem accepts_afterArgument (calls : OpenCalls) (hw : Blanks w) :
    Accepts limit (.afterArgument calls) (w ++ calls.closing) :=
  accepts_closing_calls (.inl rfl) hw .closing

theorem apart_closing (calls : OpenCalls) : Apart calls.closing :=
  apart_cons (by decide) _

theorem accepts_nextArgument (calls : OpenCalls) (hw : Blanks w) :
    Accepts limit (.nextArgument calls) (w ++ '0' :: calls.closing) := by
  have number : Leads limit (.nextArgument calls) (w ++ "0".toList) calls.closing _ :=
    leads_number .next hw (by decide) (apart_closing calls)
  simpa using number.accepts (accepts_afterArgument (w := []) (calls.push _) .nil)

theorem accepts_inString {state : State} {calls : OpenCalls} {argument : Argument}
    (place : state.context = .inString)
    (moves : State.Moves state .quote (String.ofList [quoteMark])
      (.afterArgument (calls.push argument))) :
    Accepts limit state (quoteMark :: calls.closing) := by
  have closes : Leads limit state [quoteMark] calls.closing _ :=
    .inside place .quote (by simp [Context.absorbs]) moves (by simp)
  exact closes.accepts (accepts_afterArgument (w := []) (calls.push argument) .nil)

theorem accepts_memberName (function : Call) (members : List String) (hw : Blanks w) :
    Accepts limit (.memberName function members) (w ++ ['0', ']']) := by
  have member : Leads limit (.memberName function members) (w ++ ['0']) [']'] _ :=
    .token (hw.skips (by simp [State.context])) (.member (by decide)) (apart_cons (by decide) _)
      .memberName (by simp)
  simpa using member.accepts (accepts_afterCall (w := []) _ _ .nil)

/-- From every place an expression can be ended. Only the outermost call needs some depth left:
inside it no other call is entered. -/
theorem accepts_closing (hl : 1 ≤ limit) (state : State) (skips : state.context.Skips w) :
    Accepts limit state (w ++ state.closing) := by
  have hw := skips.1
  cases state with
  | start =>
    have opens : Leads limit .start (w ++ ['[']) ['f', '(', ')', ']'] _ :=
      .mark (.inl rfl) hw rfl .bracket
    simpa [State.closing] using opens.accepts (accepts_outerName (w := []) hl .nil)
  | outerName => exact accepts_outerName hl hw
  | callOpening calls => exact accepts_callOpening calls hw
  | firstArgument calls => exact accepts_closing_calls (.inr rfl) hw .noArguments
  | nextArgument calls => exact accepts_nextArgument calls hw
  | stringBody calls =>
    obtain rfl := skips.2 rfl
    exact accepts_inString rfl .emptyString
  | stringEnd calls content =>
    obtain rfl := skips.2 rfl
    exact accepts_inString rfl .closeQuote
  | afterArgument calls => exact accepts_afterArgument calls hw
  | afterCall function members => exact accepts_afterCall function members hw
  | memberName function members => exact accepts_memberName function members hw
  | ending expression => simpa [State.closing] using accepts_ending expression hw

end

theorem State.endsBefore_closing (state : State) : state.EndsBefore state.closing := by
  cases state with
  | callOpening calls => exact apart_cons (by decide) _
  | stringEnd calls content => simp [EndsBefore, closing, State.absorbs]
  | afterArgument calls => exact apart_closing calls
  | afterCall function members => exact apart_cons (by decide) _
  | _ => simp [EndsBefore, State.absorbs]

/-! One token on from a place, by the kinds that the place lists. -/

def TokenKind.sample : TokenKind → List Char
  | leftBracket => ['[']
  | rightBracket => [']']
  | leftParen => ['(']
  | rightParen => [')']
  | functionName => ['f']
  | comma => [',']
  | quote => [quoteMark]
  | stringChars => ['s']
  | number => ['0']
  | trueWord => trueSpelling
  | falseWord => falseSpelling
  | dot => ['.']
  | memberName => ['m']
  | endOfInput => []

namespace State

variable {state : State} {kind : TokenKind}

theorem lexeme?_sample : ∀ kind ∈ state.expected, kind ≠ .endOfInput →
    state.context.lexeme? kind.sample = some (kind, kind.sample) := by
  cases state <;> simp only [expected, context] <;> decide

theorem endsBefore_sample (h : kind ∈ state.expected) (r : List Char) :
    state.EndsBefore (kind.sample ++ r) := by
  cases state with
  | callOpening calls =>
    obtain rfl : kind = .leftParen := by simpa [expected] using h
    exact apart_cons (by decide) r
  | stringEnd calls content =>
    obtain rfl : kind = .quote := by simpa [expected] using h
    simp [EndsBefore, TokenKind.sample, State.absorbs]
  | afterArgument calls =>
    obtain rfl | rfl : kind = .comma ∨ kind = .rightParen := by simpa [expected] using h
    · exact apart_cons (by decide) r
    · exact apart_cons (by decide) r
  | afterCall function members =>
    obtain rfl | rfl : kind = .dot ∨ kind = .rightBracket := by simpa [expected] using h
    · exact apart_cons (by decide) r
    · exact apart_cons (by decide) r
  | _ => simp [EndsBefore, State.absorbs]

theorem eq_ending (h : .endOfInput ∈ state.expected) :
    ∃ expression, state = .ending expression := by
  cases state with
  | ending expression => exact ⟨expression, rfl⟩
  | _ => simp [expected] at h

end State

/-- The source is an expression, and a token of the kind that starts at the position is pulled
while it is read. -/
def ReadsTokenAt (limit : Nat) (source : String) (kind : TokenKind) (position : Nat) : Prop :=
  (∃ expression, Expression.parse ⟨limit⟩ source = .ok expression) ∧
    ∃ tokens reader after token, Reader.Reads limit (.start source) tokens reader ∧
      reader.pull = (after, .ok token) ∧ token.kind = kind ∧ token.start = position

namespace ComesTo

variable {limit : Nat} {text : List Char} {state : State} {kind : TokenKind}

theorem exists_parse_eq_ok (h : ComesTo limit text state) (hl : 1 ≤ limit) :
    ∃ t expression, Expression.parse ⟨limit⟩ (String.ofList text ++ t) = .ok expression := by
  obtain ⟨p, w, tokens, -, skips, reads⟩ := h.reads (Nat.le_refl limit) state.endsBefore_closing
  obtain ⟨expression, accepted⟩ := accepts_closing hl state skips
  exact ⟨_, expression, reads.run_eq.trans (accepted p)⟩

theorem exists_readsTokenAt (h : ComesTo limit text state) (hk : kind ∈ state.expected) :
    ∃ t limit', ReadsTokenAt limit' (String.ofList text ++ t) kind text.length := by
  by_cases he : kind = .endOfInput
  · subst he
    obtain ⟨expression, rfl⟩ := State.eq_ending hk
    obtain ⟨p, w, tokens, hp, skips, reads⟩ :=
      h.reads (y := []) (Nat.le_refl limit) (by simp [State.EndsBefore])
    rw [List.append_nil] at reads
    have ends : Accepts limit (.ending expression) w := accepts_ending expression skips.1
    obtain ⟨expression', accepted⟩ := ends
    have pulls : Cursor.Pulls .topLevel ⟨p, w⟩ _ _ := .endOfInput (by simp) skips.1
    exact ⟨_, limit, ⟨expression', reads.run_eq.trans (accepted p)⟩, tokens, _, _, _, reads,
      Cursor.pulls_iff.mp pulls, rfl, hp⟩
  · obtain ⟨next, moves, hd⟩ := State.exists_moves hk he (String.ofList kind.sample)
    have spells := spells_of_lexeme? (State.lexeme?_sample kind hk he)
    have ends : ∀ c ∈ next.closing.head?, ¬ state.context.absorbs kind c := by
      intro c hc ha
      exact next.endsBefore_closing c hc (moves.absorbs ha)
    -- The sample may enter one call more, so the limit leaves room for it.
    let limit' := limit + (state.depth + 1)
    have higher : limit ≤ limit' := Nat.le_add_right ..
    have deeper : kind = .functionName → next.depth ≤ limit' := by
      intro hf
      have := hd hf
      omega
    have follows := State.endsBefore_sample hk next.closing
    obtain ⟨p, w, tokens, hp, skips, reads⟩ := h.reads higher follows
    rw [← List.append_assoc] at reads
    have sample : Leads limit' state (w ++ kind.sample) next.closing next :=
      .token skips spells ends moves deeper
    have closes : Accepts limit' next next.closing :=
      accepts_closing (w := []) (Nat.le_add_left ..) next ⟨.nil, fun _ => rfl⟩
    obtain ⟨expression, accepted⟩ := sample.accepts closes
    have shifts := Reader.Shifts.mk (p := p) skips spells ends moves deeper
    exact ⟨_, limit', ⟨expression, reads.run_eq.trans (accepted p)⟩, tokens, _, _, _, reads,
      shifts.pull_eq, rfl, hp⟩

theorem mem_expected (h : ComesTo limit text state) {limit' : Nat} {t : String}
    (read : ReadsTokenAt limit' (String.ofList text ++ t) kind text.length) :
    kind ∈ state.expected := by
  obtain ⟨⟨expression, accepted⟩, tokens, reader, after, token, reads, pulled, rfl, start⟩ := read
  have pulls := Cursor.pulls_iff.mpr pulled
  obtain ⟨w, r, hr, skips, hp⟩ := pulls.token_start
  obtain ⟨text', source, length, comes⟩ := reads.comesTo hr skips
  have same : text = text' := by
    rw [String.toList_append, String.toList_ofList] at source
    refine (List.append_inj source ?_).1
    rw [length, ← hp, start]
  rw [same] at h
  rw [h.unique comes]
  apply Classical.byContradiction
  intro hk
  have fails : Reader.Fails limit' reader _ := .refused pulls hk
  have refused : reader.run limit' = .error _ :=
    Reader.run_eq_iff.mpr ⟨[], reader, .here, Reader.step_eq_error_iff.mpr fails⟩
  have whole : (Reader.start (String.ofList text ++ t)).run limit' = .ok expression := accepted
  rw [reads.run_eq, refused] at whole
  contradiction

end ComesTo

/-- The place where a run fails, and the text up to the error. -/
theorem comesTo_of_parse_eq_error {limit : Nat} {source : String} {error : ParseError}
    (h : Expression.parse ⟨limit⟩ source = .error error) :
    ∃ text rest state, source.toList = text ++ rest ∧ text.length = error.position ∧
      ComesTo limit text state ∧
      (error.kind ≠ .nestingTooDeep → error.expected = state.expected) := by
  obtain ⟨tokens, reader, reads, done⟩ := Reader.run_eq_iff.mp h
  obtain ⟨w, r, hr, skips, hp, expected⟩ := (Reader.step_eq_error_iff.mp done).gap
  obtain ⟨text, source, length, comes⟩ := reads.comesTo hr skips
  exact ⟨text, r, reader.state, source, length.trans hp.symm, comes, expected⟩

/-- An error stands at the first character that no expression could have there, and lists the
kinds of token that some expression has there. -/
theorem parse_error_earliest (source : String) (limit : Nat) (error : ParseError)
    (h : Expression.parse ⟨limit⟩ source = .error error) :
    ∃ text rest : String, source = text ++ rest ∧ text.length = error.position ∧
      (1 ≤ limit → ∃ t expression, Expression.parse ⟨limit⟩ (text ++ t) = .ok expression) ∧
      (error.kind ≠ .nestingTooDeep → ∀ kind, kind ∈ error.expected ↔
        ∃ t limit', ReadsTokenAt limit' (text ++ t) kind text.length) := by
  obtain ⟨text, rest, state, hs, length, comes, expected⟩ := comesTo_of_parse_eq_error h
  refine ⟨String.ofList text, String.ofList rest, ?_, ?_, comes.exists_parse_eq_ok, ?_⟩
  · rw [← String.ofList_append, ← hs, String.ofList_toList]
  · rw [String.length_ofList, length]
  · intro hk kind
    rw [expected hk, String.length_ofList]
    constructor
    · exact comes.exists_readsTokenAt
    · rintro ⟨t, limit', read⟩
      exact comes.mem_expected read

/-- A parenthesis may close an empty list of arguments, but not one that ends with a comma. -/
theorem parse_error_earliest_after_comma :
    Expression.parse ⟨1⟩ "[f(1, )" = .error (.unexpectedToken 6 .rightParen ")"
      [.functionName, .quote, .number, .trueWord, .falseWord]) ∧
    ∃ text rest : String, "[f(1, )" = text ++ rest ∧ text.length = 6 ∧
      (∃ t expression, Expression.parse ⟨1⟩ (text ++ t) = .ok expression) ∧
      ∀ kind, kind ∈ [.functionName, .quote, .number, .trueWord, .falseWord] ↔
        ∃ t limit', ReadsTokenAt limit' (text ++ t) kind text.length := by
  have refused : Expression.parse ⟨1⟩ "[f(1, )" = .error (.unexpectedToken 6 .rightParen ")"
      [.functionName, .quote, .number, .trueWord, .falseWord]) :=
    Reader.run_eq_iff.mpr ⟨_, _, .token rfl rfl (.token rfl rfl (.token rfl rfl
      (.token rfl rfl (.token rfl rfl .here)))), rfl⟩
  obtain ⟨text, rest, source, length, completed, expected⟩ := parse_error_earliest _ _ _ refused
  exact ⟨refused, text, rest, source, length, completed (by decide), expected (by decide)⟩

end ConfigExpr
