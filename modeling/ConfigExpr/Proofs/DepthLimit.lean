import ConfigExpr.Proofs.CallPlaces

/-! What the limit on the depth does to a run. `Reads.mono` and `Fails.other_limit` say that it
decides nothing but whether a call is entered: under two limits the runs go the same way up to the
first call that only the higher one admits. -/
namespace ConfigExpr

open Grammar

namespace Reader

variable {low high : Nat} {reader : Reader}

theorem Fails.other_limit {error : ParseError} (h : Fails low reader error)
    (hk : error.kind ≠ .nestingTooDeep) : Fails high reader error := by
  cases h with
  | lexical pulls => exact .lexical pulls
  | refused pulls refused => exact .refused pulls refused
  | tooDeep => exact absurd rfl hk

theorem refusal_ne_nestingTooDeep (state : State) (token : Token) (position limit : Nat) :
    refusal state token ≠ .nestingTooDeep position limit := by
  unfold refusal
  split <;> simp

theorem Fails.pulls_of_tooDeep {position limit : Nat}
    (h : Fails low reader (.nestingTooDeep position limit)) :
    limit = low ∧ ∃ after token,
      Cursor.Pulls reader.state.context reader.cursor after (.ok token) ∧
        token.kind = .functionName ∧ token.kind ∈ reader.state.expected ∧
        position = token.start := by
  generalize he : ParseError.nestingTooDeep position limit = error at h
  cases h with
  | lexical => contradiction
  | refused => exact absurd he.symm (refusal_ne_nestingTooDeep _ _ position limit)
  | tooDeep pulls hk expected _ =>
    obtain ⟨rfl, rfl⟩ := ParseError.nestingTooDeep.inj he
    exact ⟨rfl, _, _, pulls, hk, expected, rfl⟩

/-- The token that a low limit refuses is a name, and a higher limit goes on behind it. -/
theorem Fails.exists_shifts {position limit : Nat}
    (h : Fails low reader (.nestingTooDeep position limit)) (hd : reader.state.depth ≤ low)
    (hl : low < high) :
    ∃ token next, Shifts high reader token next ∧ position < next.cursor.position := by
  obtain ⟨-, after, token, pulls, hk, expected, rfl⟩ := h.pulls_of_tooDeep
  obtain ⟨state, cursor⟩ := reader
  cases pulls with
  | @token p w text r kind skips spells ends =>
    obtain ⟨next, moves, depth⟩ :=
      State.exists_moves expected spells.kind_ne_endOfInput (String.ofList text)
    have enters (h : kind = .functionName) : next.depth ≤ high := by
      have : next.depth ≤ state.depth + 1 := depth h
      have : state.depth ≤ low := hd
      omega
    have hne := List.length_pos_iff.mpr spells.ne_nil
    refine ⟨_, _, .mk skips spells ends moves enters, ?_⟩
    simp only
    omega
  | endOfInput => contradiction

/-- No error stands before the place where the run has come to. -/
theorem position_le_of_run_eq_error {error : ParseError} (h : reader.run low = .error error) :
    reader.cursor.position ≤ error.position := by
  obtain ⟨tokens, last, reads, done⟩ := run_eq_iff.mp h
  obtain ⟨v, -, hv⟩ := reads.rest_eq
  obtain ⟨w, r, -, -, hw, -⟩ := (step_eq_error_iff.mp done).gap
  omega

end Reader

/-- In the source of the tree, the name of the first call of a depth stands at a position. -/
def FirstCallAt (source : List Char) (expression : Expression) (depth position : Nat) : Prop :=
  (∃ calls, ExpressionCalls source expression calls) ∧
    (∀ calls, ExpressionCalls source expression calls → firstAt? depth calls = some position) ∧
    NameStands 0 source position

section

variable {source : String} {low high : Nat}

theorem parse_mono (hl : low ≤ high)
    (h : ∀ position limit,
      Expression.parse ⟨low⟩ source ≠ .error (.nestingTooDeep position limit)) :
    Expression.parse ⟨high⟩ source = Expression.parse ⟨low⟩ source := by
  cases hr : Expression.parse ⟨low⟩ source with
  | ok expression =>
    obtain ⟨text, hd⟩ := parse_eq_ok_iff.mp hr
    exact parse_of_expressionText text (Nat.le_trans hd hl)
  | error error =>
    obtain ⟨tokens, reader, reads, done⟩ := Reader.run_eq_iff.mp hr
    have kind : error.kind ≠ .nestingTooDeep := by
      cases error with
      | nestingTooDeep position limit => exact absurd hr (h position limit)
      | _ => simp [ParseError.kind]
    have fails : Reader.Fails high reader error :=
      (Reader.step_eq_error_iff.mp done).other_limit kind
    exact Reader.run_eq_iff.mpr
      ⟨tokens, reader, reads.mono hl, Reader.step_eq_error_iff.mpr fails⟩

theorem firstCallAt_of_parse {position limit : Nat} {expression : Expression}
    (h : Expression.parse ⟨low⟩ source = .error (.nestingTooDeep position limit))
    (hr : Expression.parse ⟨high⟩ source = .ok expression) :
    low < expression.depth ∧ FirstCallAt source.toList expression (low + 1) position := by
  obtain ⟨text, -⟩ := parse_eq_ok_iff.mp hr
  have deep : low < expression.depth := by
    apply Nat.lt_of_not_le
    intro hd
    rw [parse_of_expressionText text hd] at h
    contradiction
  have first : ∀ calls, ExpressionCalls source.toList expression calls →
      firstAt? (low + 1) calls = some position := by
    intro calls places
    obtain ⟨q, first, refused⟩ := refusedAt_of_expressionCalls places deep
    have same := refused.symm.trans h
    simp only [Except.error.injEq, ParseError.nestingTooDeep.injEq] at same
    rw [first, same.1]
  obtain ⟨calls, places⟩ := text.exists_calls
  exact ⟨deep, ⟨calls, places⟩, first, places.nameStands _ (mem_of_firstAt? (first calls places))⟩

theorem position_lt_of_parse {position limit : Nat} {error : ParseError} (hl : low < high)
    (h : Expression.parse ⟨low⟩ source = .error (.nestingTooDeep position limit))
    (hr : Expression.parse ⟨high⟩ source = .error error) : position < error.position := by
  obtain ⟨tokens, reader, reads, done⟩ := Reader.run_eq_iff.mp h
  have within : reader.state.Within low := reads.within trivial
  -- The higher limit enters the call, and what is left to read lies behind its name.
  obtain ⟨token, next, shifts, behind⟩ :=
    (Reader.step_eq_error_iff.mp done).exists_shifts within.depth_le hl
  have further : Reader.Reads high _ _ next :=
    (reads.mono (Nat.le_of_lt hl)).append (.token shifts.pull_eq shifts.step_eq .here)
  have rest : next.run high = .error error := further.run_eq.symm.trans hr
  exact Nat.lt_of_lt_of_le behind (Reader.position_le_of_run_eq_error rest)

end

/-- A higher limit changes no result but that of a source whose calls nest beyond the lower one.
Such a source then turns out to be an expression, with its first call beyond the lower limit at the
place of the error, or it fails behind that place. -/
theorem parse_limit_only_cuts (source : String) (low high : Nat) (hl : low ≤ high) :
    ((∀ position limit,
        Expression.parse ⟨low⟩ source ≠ .error (.nestingTooDeep position limit)) →
      Expression.parse ⟨high⟩ source = Expression.parse ⟨low⟩ source) ∧
    ∀ position limit,
      Expression.parse ⟨low⟩ source = .error (.nestingTooDeep position limit) →
      limit = low ∧ (low < high →
        (∃ expression, Expression.parse ⟨high⟩ source = .ok expression ∧
          low < expression.depth ∧ FirstCallAt source.toList expression (low + 1) position) ∨
        ∃ error, Expression.parse ⟨high⟩ source = .error error ∧ position < error.position) := by
  refine ⟨parse_mono hl, ?_⟩
  intro position limit h
  obtain ⟨tokens, reader, reads, done⟩ := Reader.run_eq_iff.mp h
  refine ⟨(Reader.step_eq_error_iff.mp done).pulls_of_tooDeep.1, ?_⟩
  intro hlt
  cases hr : Expression.parse ⟨high⟩ source with
  | ok expression =>
    left
    exact ⟨expression, rfl, firstCallAt_of_parse h hr⟩
  | error error =>
    right
    exact ⟨error, rfl, position_lt_of_parse hlt h hr⟩

/-- Two arguments, a string with marks in it, and a call too deep in the second argument. -/
theorem parse_limit_only_cuts_nested :
    1 ≤ 3 ∧ Expression.parse ⟨1⟩ "[f('日)(', g (h(1)))]" = .error (.nestingTooDeep 10 1) ∧
      ∃ expression, Expression.parse ⟨3⟩ "[f('日)(', g (h(1)))]" = .ok expression ∧
        1 < expression.depth ∧
        FirstCallAt "[f('日)(', g (h(1)))]".toList expression 2 10 := by
  have refused : Expression.parse ⟨1⟩ "[f('日)(', g (h(1)))]" = .error (.nestingTooDeep 10 1) :=
    Reader.run_eq_of_runWithin? 20 rfl
  have read : ∃ expression, Expression.parse ⟨3⟩ "[f('日)(', g (h(1)))]" = .ok expression :=
    ⟨_, Reader.run_eq_of_runWithin? 20 rfl⟩
  have cut := (parse_limit_only_cuts "[f('日)(', g (h(1)))]" 1 3 (by decide)).2 10 1 refused
  refine ⟨by decide, refused, ?_⟩
  rcases cut.2 (by decide) with accepted | ⟨error, failed, -⟩
  · exact accepted
  · obtain ⟨expression, accepted⟩ := read
    rw [accepted] at failed
    contradiction

end ConfigExpr
