import ConfigExpr.Proofs.Continuation

/-! How much of a source an error depends on. `Fails.exists_offending` splits the text in front of
a failing place into blanks, the text that the error is about and the rest, of which one character
matters at most. `parse_error_of_take_eq` says so of whole sources. -/
namespace ConfigExpr

open Grammar

namespace ParseError

/-- The text that an error is about: the character that starts no token, the token that is refused,
or the name of the call that may not be entered. There is none at the end of the source. -/
def offending (source : List Char) : ParseError → List Char
  | lexical _ (.character c) _ => [c]
  | unexpectedToken _ _ text _ => text.toList
  | nestingTooDeep position _ => (source.drop position).takeWhile isWordChar
  | _ => []

/-- The characters after the offending text that decide where it ends. -/
def lookahead : ParseError → Nat
  | lexical _ _ _ => 0
  | _ => 1

def reach (source : List Char) (error : ParseError) : Nat :=
  error.position + (error.offending source).length + error.lookahead

end ParseError

theorem exists_append_of_take_eq {a r other : List Char} {m : Nat}
    (h : other.take (a.length + m) = (a ++ r).take (a.length + m)) :
    ∃ r', other = a ++ r' ∧ r'.take m = r.take m := by
  rw [List.take_length_add_append] at h
  have first : a <+: other := (h ▸ List.prefix_append a _).trans (List.take_prefix _ _)
  obtain ⟨r', rfl⟩ := first
  rw [List.take_length_add_append] at h
  exact ⟨r', rfl, List.append_cancel_left h⟩

/-- One character after a token settles where it ends. -/
theorem ends_of_take_eq {context : Context} {kind : TokenKind} {r r' : List Char}
    (ends : ∀ c ∈ r.head?, ¬ context.absorbs kind c) (same : r'.take 1 = r.take 1) :
    ∀ c ∈ r'.head?, ¬ context.absorbs kind c := by
  have head : r'.head? = r.head? := by
    simpa [List.head?_take] using congrArg List.head? same
  rwa [head]

namespace Reader

variable {limit : Nat} {state : State} {behind rest : List Char} {error : ParseError}

/-- The error stays if the text behind the offending one is replaced, as long as the offending text
ends where it did. -/
theorem Fails.exists_offending (h : Fails limit ⟨state, ⟨behind.length, rest⟩⟩ error)
    (found : error.found ≠ .endOfInput) :
    ∃ w text r, rest = w ++ text ++ r ∧ text ≠ [] ∧
      error.offending (behind ++ rest) = text ∧ error.position = behind.length + w.length ∧
      ∀ r', r'.take error.lookahead = r.take error.lookahead →
        Fails limit ⟨state, ⟨behind.length, w ++ text ++ r'⟩⟩ error := by
  cases h with
  | lexical pulls =>
    cases pulls with
    | openString => exact absurd rfl found
    | @stray _ w c r outside blanks hc none =>
      refine ⟨w, [c], r, by simp, by simp, rfl, rfl, ?_⟩
      intro r' _
      have pulls' : Cursor.Pulls state.context ⟨behind.length, w ++ [c] ++ r'⟩
          ⟨behind.length + w.length, c :: r'⟩ (.error (.character c)) := by
        rw [List.append_assoc]
        exact .stray outside blanks hc (lexeme?_cons_eq_none none r')
      exact @Fails.lexical limit ⟨state, _⟩ ⟨behind.length + w.length, c :: r'⟩ _ pulls'
  | refused pulls refused =>
    cases pulls with
    | @token _ w text r kind skips spells ends =>
      rw [refusal_eq spells.kind_ne_endOfInput]
      refine ⟨w, text, r, rfl, spells.ne_nil, String.toList_ofList, rfl, ?_⟩
      intro r' same
      rw [← refusal_eq spells.kind_ne_endOfInput]
      exact .refused (.token skips spells (ends_of_take_eq ends same)) refused
    | endOfInput => exact absurd rfl found
  | tooDeep pulls hk expected deep =>
    cases pulls with
    | @token _ w text r kind skips spells ends =>
      obtain rfl : kind = .functionName := hk
      have chars := wordChars_of_isWord (isWord_of_isFunctionName spells.fits)
      refine ⟨w, text, r, rfl, spells.ne_nil, ?_, rfl, ?_⟩
      · rw [absorbs_functionName] at ends
        simp only [ParseError.offending]
        rw [List.append_assoc, ← List.append_assoc behind, ← List.length_append, List.drop_left]
        exact takeWhile_append_eq_left_iff.mpr ⟨chars, ends⟩
      · intro r' same
        exact .tooDeep (.token skips spells (ends_of_take_eq ends same)) rfl expected deep
    | endOfInput => contradiction

end Reader

/-- Whatever follows the offending text and the character behind it, the error is the same. -/
theorem parse_error_of_take_eq (source other : String) (limit : Nat) (error : ParseError)
    (h : Expression.parse ⟨limit⟩ source = .error error) (found : error.found ≠ .endOfInput)
    (same : other.toList.take (error.reach source.toList) =
      source.toList.take (error.reach source.toList)) :
    Expression.parse ⟨limit⟩ other = .error error := by
  obtain ⟨tokens, ⟨state, ⟨p, rest⟩⟩, reads, done⟩ := Reader.run_eq_iff.mp h
  obtain ⟨behind, hs, hp⟩ := reads.exists_behind
  obtain rfl : p = behind.length := hp
  simp only at hs
  obtain ⟨w, text, r, rfl, nonempty, offending, position, fails⟩ :=
    (Reader.step_eq_error_iff.mp done).exists_offending found
  rw [← hs] at offending
  have split : source.toList = behind ++ w ++ text ++ r := by simp [hs]
  have reach : error.reach source.toList = (behind ++ w ++ text).length + error.lookahead := by
    simp [ParseError.reach, offending, position, Nat.add_assoc]
  rw [reach, split] at same
  obtain ⟨r', ho, same'⟩ := exists_append_of_take_eq same
  -- The last token before the place still ends in front of what was behind it.
  have first : ∀ c ∈ (w ++ text ++ r').head?, state.absorbs c → c ∈ (w ++ text ++ r).head? := by
    intro c hc _
    obtain ⟨x, t, hx⟩ := List.exists_cons_of_ne_nil (l := w ++ text) (by simp [nonempty])
    rw [hx] at hc ⊢
    exact hc
  have shared : other.toList = behind ++ (w ++ text ++ r') := by simp [ho]
  obtain ⟨tokens', reads'⟩ := reads.other_source hs shared first
  exact Reader.run_eq_iff.mpr
    ⟨tokens', _, reads', Reader.step_eq_error_iff.mpr (fails r' same')⟩

/-- The digits end with the comma. A letter there would have made a member name of them. -/
theorem parse_error_of_take_eq_digits :
    Expression.parse ⟨2⟩ "[f('日' 12, 3" =
      .error (.unexpectedToken 7 .number "12" [.comma, .rightParen]) ∧
    Expression.parse ⟨2⟩ "[f('日' 12,$'" =
      .error (.unexpectedToken 7 .number "12" [.comma, .rightParen]) := by
  have refused : Expression.parse ⟨2⟩ "[f('日' 12, 3" =
      .error (.unexpectedToken 7 .number "12" [.comma, .rightParen]) :=
    Reader.run_eq_of_runWithin? 20 rfl
  exact ⟨refused, parse_error_of_take_eq _ _ _ _ refused (by decide) (by decide)⟩

end ConfigExpr
