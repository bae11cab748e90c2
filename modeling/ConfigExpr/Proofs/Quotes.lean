import ConfigExpr.Proofs.Shift

/-! Quotes change sides just where the reader does. `Reads.inside` says that a run is inside a
string literal exactly when the text behind it ends inside one, and `Reads.closesString` that
between its text and its closing quote nothing else stands. -/
namespace ConfigExpr

open Grammar

theorem endsInside_append (inside : Bool) (a b : List Char) :
    endsInside inside (a ++ b) = endsInside (endsInside inside a) b := by
  induction a generalizing inside with
  | nil => simp [endsInside]
  | cons c r ih =>
    rw [List.cons_append, endsInside_cons, ih, endsInside_cons]

theorem endsInside_of_not_mem {text : List Char} (h : quoteMark ∉ text) (inside : Bool) :
    endsInside inside text = inside := by
  simp [endsInside, List.count_eq_zero.mpr h]

theorem endsInside_false_iff {text : List Char} :
    endsInside false text = true ↔ text.count quoteMark % 2 = 1 := by
  simp [endsInside]

theorem quoteMark_not_mem_of_blanks {w : List Char} (hw : Blanks w) : quoteMark ∉ w := by
  intro h
  exact absurd (hw quoteMark h) (by decide)

theorem quoteMark_not_mem_of_word {text : List Char} (h : ∀ c ∈ text, isWordChar c) :
    quoteMark ∉ text := by
  intro hq
  exact absurd (h quoteMark hq) (by decide)

/-- Of all tokens only a quote changes sides. -/
theorem TokenKind.Fits.endsInside_eq {kind : TokenKind} {text : List Char} (h : kind.Fits text)
    (inside : Bool) : endsInside inside text = if kind = .quote then !inside else inside := by
  by_cases hk : kind = .quote
  · subst hk
    obtain rfl : text = [quoteMark] := h
    rw [endsInside_cons]
    simp [endsInside]
  · rw [if_neg hk]
    apply endsInside_of_not_mem
    cases kind with
    | quote => exact absurd rfl hk
    | functionName =>
      have word : IsWord text := isWord_of_isFunctionName h
      exact quoteMark_not_mem_of_word (wordChars_of_isWord word)
    | stringChars =>
      intro hq
      have := List.all_eq_true.mp h.2 quoteMark hq
      simp at this
    | number => exact quoteMark_not_mem_of_word (wordChars_of_isNumber h)
    | memberName => exact quoteMark_not_mem_of_word (isMemberName_iff.mp h).2
    | endOfInput => exact absurd h (by simp [Fits])
    | _ =>
      subst h
      decide

namespace State

def inside (state : State) : Bool := state.context == .inString

theorem leave_inside_eq (calls : OpenCalls) : calls.leave.inside = false := by
  obtain ⟨call, outer, depth⟩ := calls
  cases outer <;> rfl

theorem Awaits.inside_eq {state : State} {calls : OpenCalls} (awaits : Awaits state calls) :
    state.inside = false := by
  cases awaits <;> rfl

theorem Moves.inside_eq {state next : State} {kind : TokenKind} {text : String}
    (moves : Moves state kind text next) :
    next.inside = if kind = .quote then !state.inside else state.inside := by
  cases moves with
  | noArguments => exact leave_inside_eq _
  | closing => exact leave_inside_eq _
  | innerName awaits =>
    rw [awaits.inside_eq]
    rfl
  | openQuote awaits =>
    rw [awaits.inside_eq]
    rfl
  | number awaits =>
    rw [awaits.inside_eq]
    rfl
  | trueWord awaits =>
    rw [awaits.inside_eq]
    rfl
  | falseWord awaits =>
    rw [awaits.inside_eq]
    rfl
  | _ => rfl

end State

namespace Reader

variable {limit : Nat} {reader last next : Reader} {tokens : List Token} {token : Token}

theorem Shifts.inside_eq (h : Shifts limit reader token next) {v : List Char}
    (hv : reader.cursor.rest = v ++ next.cursor.rest) :
    endsInside reader.state.inside v = next.state.inside := by
  cases h with
  | @mk p w text r state kind next skips spells _ moves _ =>
    obtain rfl : w ++ text = v := List.append_cancel_right hv
    rw [endsInside_append, endsInside_of_not_mem (quoteMark_not_mem_of_blanks skips.1),
      spells.fits.endsInside_eq, moves.inside_eq]

/-- A run is inside a string literal where the text behind it ends inside one. -/
theorem Reads.inside_eq (reads : Reads limit reader tokens last) {v : List Char}
    (hv : reader.cursor.rest = v ++ last.cursor.rest) :
    endsInside reader.state.inside v = last.state.inside := by
  induction reads generalizing v with
  | here =>
    obtain rfl : v = [] := List.append_left_eq_self.mp hv.symm
    simp [endsInside]
  | token pulled moved reads ih =>
    have shifts := shifts_of_step pulled moved
    obtain ⟨u, hu, -, -⟩ := shifts.rest_eq
    obtain ⟨v', hv', -⟩ := reads.rest_eq
    obtain rfl : u ++ v' = v := by
      rw [hu, hv', ← List.append_assoc] at hv
      exact List.append_cancel_right hv
    rw [endsInside_append, shifts.inside_eq hu, ih hv']

/-- The text of a literal ends where its quote stands, or with the source. -/
def ClosesString (reader : Reader) : Prop :=
  ∀ calls content, reader.state = .stringEnd calls content →
    ∀ c ∈ reader.cursor.rest.head?, c = quoteMark

theorem Shifts.closesString (h : Shifts limit reader token next) : next.ClosesString := by
  intro calls content hs c hc
  cases h with
  | @mk p w text r state kind next _ _ ends moves _ =>
    obtain rfl : next = .stringEnd calls content := hs
    generalize he : State.stringEnd calls content = next at moves
    have inString : next.inside = true := he ▸ rfl
    cases moves with
    | stringChars => simpa [State.context, Context.absorbs] using ends c hc
    | noArguments => simp [State.leave_inside_eq] at inString
    | closing => simp [State.leave_inside_eq] at inString
    | _ => contradiction

theorem Reads.closesString (reads : Reads limit reader tokens last)
    (h : reader.ClosesString) : last.ClosesString :=
  reads.preserves (fun shifts _ => shifts.closesString) h

end Reader

end ConfigExpr
