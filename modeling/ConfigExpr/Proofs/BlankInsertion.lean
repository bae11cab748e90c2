import ConfigExpr.Proofs.Continuation

/-! Blanks in front of a token mean nothing. `run_append_blanks` says that a run passes over them,
`run_shift` that a run does not depend on where its text stands, and `parse_insertText` joins both
with the run up to the place where the blanks are put in. -/
namespace ConfigExpr

open Grammar

def ParseError.shift (count : Nat) : ParseError → ParseError
  | lexical position found expected => lexical (position + count) found expected
  | unexpectedToken position found text expected =>
    unexpectedToken (position + count) found text expected
  | unexpectedEndOfInput position expected => unexpectedEndOfInput (position + count) expected
  | nestingTooDeep position limit => nestingTooDeep (position + count) limit

def Token.shift (count : Nat) (token : Token) : Token := { token with start := token.start + count }

def Cursor.shift (count : Nat) (cursor : Cursor) : Cursor :=
  { cursor with position := cursor.position + count }

def insertText (source : String) (position : Nat) (text : String) : String :=
  String.ofList (source.toList.take position ++ text.toList ++ source.toList.drop position)

namespace Cursor

variable {context : Context} {p : Nat} {w r : List Char}

theorem skipBlanks_append_blanks (outside : context ≠ .inString) (hw : Blanks w) :
    skipBlanks context ⟨p, w ++ r⟩ = skipBlanks context ⟨p + w.length, r⟩ := by
  unfold skipBlanks
  rw [if_neg outside, if_neg outside, List.takeWhile_append_of_pos hw]
  simp [advance, Nat.add_assoc, List.drop_append]

theorem next_append_blanks (outside : context ≠ .inString) (hw : Blanks w) :
    next context ⟨p, w ++ r⟩ = next context ⟨p + w.length, r⟩ := by
  simp only [next, skipBlanks_append_blanks outside hw]

theorem Pulls.shift {cursor after : Cursor} {result : Except Found Token}
    (h : Pulls context cursor after result) (count : Nat) :
    Pulls context (cursor.shift count) (after.shift count) (result.map (·.shift count)) := by
  cases h with
  | @token p w text r kind skips spells ends =>
    have pulls := Pulls.token (p := p + count) skips spells ends
    simpa [Cursor.shift, Token.shift, Except.map, Nat.add_right_comm _ count] using pulls
  | @endOfInput p w outside blanks =>
    have pulls := Pulls.endOfInput (p := p + count) outside blanks
    simpa [Cursor.shift, Token.shift, Except.map, Nat.add_right_comm _ count] using pulls
  | openString inside => exact .openString inside
  | @stray p w c r outside blanks hc none =>
    have pulls := Pulls.stray (p := p + count) outside blanks hc none
    simpa [Cursor.shift, Except.map, Nat.add_right_comm _ count] using pulls

end Cursor

namespace Reader

variable {limit p : Nat} {state : State} {w r : List Char}

/-- Where the token starts that the place pulls, or the character that starts none. -/
def pullStart (reader : Reader) : Nat :=
  match reader.pull with
  | (_, .ok token) => token.start
  | (after, .error _) => after.position

theorem exists_pullStart (reader : Reader) :
    ∃ w r, reader.cursor.rest = w ++ r ∧ reader.state.context.Skips w ∧
      reader.pullStart = reader.cursor.position + w.length := by
  unfold pullStart
  split
  · next after token pulled => exact (Cursor.pulls_iff.mpr pulled).token_start
  · next after found pulled => exact (Cursor.pulls_iff.mpr pulled).error_position

theorem run_eq_of_step_eq {a b : Reader} (h : a.step limit = b.step limit) :
    a.run limit = b.run limit := by
  obtain ⟨tokens, last, reads, done⟩ := run_eq_iff.mp (rfl : b.run limit = b.run limit)
  cases reads with
  | here => exact run_eq_iff.mpr ⟨[], a, .here, h.trans done⟩
  | token pulled moved reads =>
    obtain ⟨after, token, pulled'⟩ := exists_pull_of_step (h.trans moved)
    exact run_eq_iff.mpr ⟨_, last, .token pulled' (h.trans moved) reads, done⟩

/-- Outside string literals a run passes over blanks. -/
theorem run_append_blanks (outside : state.context ≠ .inString) (hw : Blanks w) :
    run limit ⟨state, ⟨p, w ++ r⟩⟩ = run limit ⟨state, ⟨p + w.length, r⟩⟩ := by
  have pulls : pull ⟨state, ⟨p, w ++ r⟩⟩ = pull ⟨state, ⟨p + w.length, r⟩⟩ :=
    Cursor.next_append_blanks outside hw
  apply run_eq_of_step_eq
  simp only [step, pulls]

theorem refusal_shift (state : State) (token : Token) (count : Nat) :
    refusal state (token.shift count) = (refusal state token).shift count := by
  by_cases h : token.kind = .endOfInput
  · simp [refusal, Token.shift, h, ParseError.shift]
  · simp [refusal, Token.shift, h, ParseError.shift]

theorem Fails.shift {cursor : Cursor} {error : ParseError} (h : Fails limit ⟨state, cursor⟩ error)
    (count : Nat) : Fails limit ⟨state, cursor.shift count⟩ (error.shift count) := by
  cases h with
  | @lexical after found pulls =>
    exact @Fails.lexical limit ⟨state, _⟩ (after.shift count) found (pulls.shift count)
  | @refused after token pulls refused =>
    rw [← refusal_shift]
    exact @Fails.refused limit ⟨state, _⟩ _ (token.shift count) (pulls.shift count) refused
  | @tooDeep after token pulls hk expected deep =>
    exact @Fails.tooDeep limit ⟨state, _⟩ _ (token.shift count) (pulls.shift count) hk expected deep

/-- Only the positions of errors tell where the text of a run stands. -/
theorem run_shift (cursor : Cursor) (count : Nat) :
    run limit ⟨state, cursor.shift count⟩ =
      (run limit ⟨state, cursor⟩).mapError (·.shift count) := by
  generalize result : run limit ⟨state, cursor⟩ = outcome
  obtain ⟨tokens, last, reads, done⟩ := run_eq_iff.mp result
  obtain ⟨v, hv, hp⟩ := reads.rest_eq
  obtain ⟨tokens', reads'⟩ := reads.leads hv (fun c hc _ => hc) (cursor.position + count)
  have start : (⟨state, ⟨cursor.position + count, v ++ last.cursor.rest⟩⟩ : Reader) =
      ⟨state, cursor.shift count⟩ := by
    rw [← hv]
    rfl
  have place : (⟨cursor.position + count + v.length, last.cursor.rest⟩ : Cursor) =
      last.cursor.shift count := by
    rw [Cursor.shift, hp, Nat.add_right_comm]
  rw [place, start] at reads'
  refine run_eq_iff.mpr ⟨tokens', _, reads', ?_⟩
  cases outcome with
  | ok expression =>
    obtain ⟨ending, blanks⟩ := step_eq_accept_iff.mp done
    exact step_eq_accept_iff.mpr ⟨ending, blanks⟩
  | error error => exact step_eq_error_iff.mpr ((step_eq_error_iff.mp done).shift count)

end Reader

/-- Blanks in front of any token outside string literals, or of a character or an end of the source
that is found there, leave the result as it is, but for the position of an error. -/
theorem parse_insertText (source blanks : String) (limit : Nat) (tokens : List Token)
    (reader : Reader) (reads : Reader.Reads limit (.start source) tokens reader)
    (outside : reader.state.context ≠ .inString) (hb : Blanks blanks.toList) :
    Expression.parse ⟨limit⟩ (insertText source reader.pullStart blanks) =
      (Expression.parse ⟨limit⟩ source).mapError (·.shift blanks.length) := by
  obtain ⟨behind, hs, hp⟩ := reads.exists_behind
  obtain ⟨w, r, hr, ⟨hw, -⟩, start⟩ := reader.exists_pullStart
  obtain ⟨state, ⟨p, rest⟩⟩ := reader
  simp only at hs hp hr start outside
  subst hp hr
  have inserted : (insertText source (behind.length + w.length) blanks).toList =
      behind ++ (w ++ blanks.toList ++ r) := by
    rw [← List.append_assoc] at hs
    rw [insertText, hs, ← List.length_append, List.take_left, List.drop_left]
    simp
  -- The last token before the place ends in front of a blank, or where it ended before.
  have first : ∀ c ∈ (w ++ blanks.toList ++ r).head?, state.absorbs c → c ∈ (w ++ r).head? := by
    intro c hc absorbs
    cases hb' : w ++ blanks.toList with
    | nil =>
      rw [hb'] at hc
      simpa [(List.append_eq_nil_iff.mp hb').1] using hc
    | cons b t =>
      obtain rfl : b = c := by simpa [hb'] using hc
      have blank : isBlank b := hw.append hb b (by simp [hb'])
      exact absurd absorbs (State.not_absorbs_of_isBlank outside blank)
  obtain ⟨tokens', reads'⟩ := reads.other_source hs inserted first
  have skipped : Cursor.mk (behind.length + (w ++ blanks.toList).length) r =
      Cursor.shift blanks.length ⟨behind.length + w.length, r⟩ := by
    simp [Cursor.shift, Nat.add_assoc, String.length_toList]
  rw [start]
  calc Expression.parse ⟨limit⟩ (insertText source (behind.length + w.length) blanks)
    _ = Reader.run limit ⟨state, ⟨behind.length, w ++ blanks.toList ++ r⟩⟩ := reads'.run_eq
    _ = Reader.run limit ⟨state, ⟨behind.length + (w ++ blanks.toList).length, r⟩⟩ :=
      Reader.run_append_blanks outside (hw.append hb)
    _ = (Reader.run limit ⟨state, ⟨behind.length + w.length, r⟩⟩).mapError
          (·.shift blanks.length) := by rw [skipped, Reader.run_shift]
    _ = (Reader.run limit ⟨state, ⟨behind.length, w ++ r⟩⟩).mapError (·.shift blanks.length) := by
      rw [Reader.run_append_blanks outside hw]
    _ = (Expression.parse ⟨limit⟩ source).mapError (·.shift blanks.length) :=
      congrArg _ reads.run_eq.symm

/-- Behind a string literal with blanks of its own, in front of the token that is refused. -/
theorem parse_insertText_refused :
    Expression.parse ⟨2⟩ "[f('a  b' x" =
      .error (.unexpectedToken 10 .functionName "x" [.comma, .rightParen]) ∧
    Expression.parse ⟨2⟩ "[f('a  b' \t\n\r x" =
      .error (.unexpectedToken 14 .functionName "x" [.comma, .rightParen]) := by
  let reader : Reader := ⟨.afterArgument ⟨⟨"f", [.string "a  b"]⟩, [], 1⟩, ⟨9, [' ', 'x']⟩⟩
  have reads : Reader.Reads 2 (.start "[f('a  b' x") _ reader :=
    .token rfl rfl (.token rfl rfl (.token rfl rfl (.token rfl rfl (.token rfl rfl
      (.token rfl rfl .here)))))
  have refused : Expression.parse ⟨2⟩ "[f('a  b' x" =
      .error (.unexpectedToken 10 .functionName "x" [.comma, .rightParen]) :=
    Reader.run_eq_iff.mpr ⟨_, reader, reads, rfl⟩
  have inserted := parse_insertText _ "\t\n\r " 2 _ reader reads (by decide)
    (by simp [Blanks, isBlank])
  have place : reader.pullStart = 10 := rfl
  have whole : insertText "[f('a  b' x" 10 "\t\n\r " = "[f('a  b' \t\n\r x" := by decide
  rw [place, whole, refused] at inserted
  exact ⟨refused, inserted⟩

end ConfigExpr
