import ConfigExpr.Proofs.Continuation

/-! What a cut through a source leaves of its tokens. `Reads.exists_cut` finds the token that the
cut goes through, `exists_spells_of_cut` says that what is left of it is a token again, and
`exists_leads_of_cut` where that leads. -/
namespace ConfigExpr

open Grammar

namespace State.Moves

variable {state next : State} {kind : TokenKind} {text : String}

/-- A place moves on kinds that it expects, and never on the end of input. -/
theorem mem_expected (moves : Moves state kind text next) :
    kind ∈ state.expected ∧ kind ≠ .endOfInput := by
  have go : state.advance next.depth kind text = .go next :=
    advance_eq_go_iff.mpr ⟨moves, fun _ => Nat.le_refl _⟩
  constructor
  · apply Classical.byContradiction
    intro refused
    rw [(advance_eq_refuse_iff ..).mpr refused] at go
    contradiction
  · rintro rfl
    exact advance_endOfInput _ _ _ _ go

theorem ne_ending (moves : Moves state kind text next) (expression : Expression) :
    state ≠ .ending expression := by
  rintro rfl
  obtain ⟨expected, unfinished⟩ := moves.mem_expected
  exact unfinished (by simpa [State.expected] using expected)

end State.Moves

namespace State

theorem leave_ne_ending (calls : OpenCalls) (expression : Expression) :
    calls.leave ≠ .ending expression := by
  obtain ⟨call, outer, depth⟩ := calls
  cases outer <;> simp [OpenCalls.leave]

theorem Moves.next_ne_ending {state next : State} {kind : TokenKind} {text : String}
    (moves : Moves state kind text next) (hk : kind ≠ .rightBracket) (expression : Expression) :
    next ≠ .ending expression := by
  cases moves with
  | noArguments => exact leave_ne_ending _ expression
  | closing => exact leave_ne_ending _ expression
  | closeBracket => exact absurd rfl hk
  | _ => simp

end State

namespace Reader

/-- A cut before the end of a run goes through the text of one of its shifts, or stands in front of
it. -/
theorem Reads.exists_cut {limit : Nat} {a b : Reader} {tokens : List Token}
    (reads : Reads limit a tokens b) {u r : List Char} (hu : a.cursor.rest = u ++ r)
    (hr : b.cursor.rest.length < r.length) :
    ∃ s c token next v t t', Reads limit a s c ∧ Shifts limit c token next ∧
      a.cursor.rest = v ++ c.cursor.rest ∧ u = v ++ t ∧
      c.cursor.rest = t ++ t' ++ next.cursor.rest ∧ t' ≠ [] := by
  induction reads generalizing u with
  | here =>
    rw [hu, List.length_append] at hr
    omega
  | @token reader next last cursor token tokens pulled moved reads ih =>
    have shifts := shifts_of_step pulled moved
    obtain ⟨x, hx, -, -⟩ := shifts.rest_eq
    rw [hx] at hu
    rcases List.append_eq_append_iff.mp hu with ⟨u', rfl, hn⟩ | ⟨t', rfl, rfl⟩
    · obtain ⟨s, c, token', next', v, t, t', reads', shifts', hv, rfl, hc, ht⟩ := ih hn hr
      refine ⟨token :: s, c, token', next', x ++ v, t, t', .token pulled moved reads', shifts', ?_,
        by simp, hc, ht⟩
      rw [hx, hv, List.append_assoc]
    · by_cases ht : t' = []
      · subst ht
        obtain ⟨s, c, token', next', v, t, t', reads', shifts', hv, hu', hc, ht⟩ :=
          ih (u := []) (by simp) (by simpa using hr)
        obtain ⟨rfl, rfl⟩ := List.append_eq_nil_iff.mp hu'.symm
        refine ⟨token :: s, c, token', next', u, [], t', .token pulled moved reads', shifts', ?_,
          by simp, hc, ht⟩
        rw [hx, hv]
        simp
      · exact ⟨[], reader, token, next, [], u, t', .here, shifts, rfl, rfl, hx, ht⟩

end Reader

/-! What is left of a token that is cut off is a token again. -/

section

variable {t t' : List Char}

theorem IsWord.of_append (h : IsWord (t ++ t')) (ht : t ≠ []) : IsWord t := by
  obtain ⟨c, r, hc, ha, hr⟩ := h
  obtain ⟨d, s, rfl⟩ := List.exists_cons_of_ne_nil ht
  obtain ⟨rfl, rfl⟩ := List.cons.inj hc
  exact ⟨d, s, rfl, ha, fun x hx => hr x (List.mem_append_left t' hx)⟩

theorem eq_nil_of_append_eq_singleton {c : Char} (h : t ++ t' = [c]) (ht : t ≠ []) : t' = [] := by
  obtain ⟨d, s, rfl⟩ := List.exists_cons_of_ne_nil ht
  exact (List.append_eq_nil_iff.mp (List.cons.inj h).2).2

/-- Marks cannot be cut. Words, digit runs and the text of a string literal can. -/
theorem TokenKind.Fits.of_append {kind : TokenKind} (h : kind.Fits (t ++ t')) (ht : t ≠ [])
    (ht' : t' ≠ []) :
    kind ∈ [.functionName, .trueWord, .falseWord] ∧ IsWord t ∨
      kind = .number ∧ isNumber t ∨ kind = .memberName ∧ isMemberName t ∨
      kind = .stringChars ∧ isStringText t := by
  have word (h : IsWord (t ++ t')) : IsWord t := h.of_append ht
  cases kind with
  | functionName => exact .inl ⟨by simp, word (isWord_of_isFunctionName h)⟩
  | trueWord => exact .inl ⟨by simp, word (h ▸ isWord_trueSpelling)⟩
  | falseWord => exact .inl ⟨by simp, word (h ▸ isWord_falseSpelling)⟩
  | number =>
    have digits := (isNumber_iff.mp h).2
    exact .inr (.inl ⟨rfl,
      isNumber_iff.mpr ⟨ht, fun c hc => digits c (List.mem_append_left t' hc)⟩⟩)
  | memberName =>
    have chars := (isMemberName_iff.mp h).2
    exact .inr (.inr (.inl ⟨rfl,
      isMemberName_iff.mpr ⟨ht, fun c hc => chars c (List.mem_append_left t' hc)⟩⟩))
  | stringChars =>
    have chars : isStringText t ∧ isStringText t' := by simpa [isStringText] using h.2
    exact .inr (.inr (.inr ⟨rfl, chars.1⟩))
  | endOfInput => exact absurd h (by simp [Fits])
  | _ => exact absurd (eq_nil_of_append_eq_singleton h ht) ht'

end

namespace State

theorem Awaits.words_expected {state : State} {calls : OpenCalls} (awaits : Awaits state calls) :
    ∀ kind ∈ [TokenKind.functionName, .trueWord, .falseWord], kind ∈ state.expected := by
  cases awaits <;> simp [expected]

/-- A name or a boolean literal is read where an argument may start, but for the outer name. -/
theorem Moves.of_word {state next : State} {kind : TokenKind} {text : String}
    (moves : Moves state kind text next)
    (h : kind ∈ [TokenKind.functionName, .trueWord, .falseWord]) :
    state = .outerName ∨ ∃ calls, Awaits state calls := by
  cases moves with
  | outerName => exact .inl rfl
  | innerName awaits => exact .inr ⟨_, awaits⟩
  | trueWord awaits => exact .inr ⟨_, awaits⟩
  | falseWord awaits => exact .inr ⟨_, awaits⟩
  | _ => simp at h

/-- What is left of a token is of a kind that its place expects, unless it is the name of the outer
call, cut to the spelling of a boolean literal. -/
theorem exists_spells_of_cut {state next : State} {kind : TokenKind} {t t' : List Char}
    (moves : Moves state kind (String.ofList (t ++ t')) next)
    (spells : state.context.Spells kind (t ++ t')) (ht : t ≠ []) (ht' : t' ≠ []) :
    ∃ kind', state.context.Spells kind' t ∧ kind' ≠ .rightBracket ∧
      (kind' ∈ state.expected ∨
        state = .outerName ∧ (t = trueSpelling ∨ t = falseSpelling)) := by
  rcases spells.fits.of_append ht ht' with ⟨hk, word⟩ | ⟨rfl, digits⟩ | ⟨rfl, name⟩ | ⟨rfl, chars⟩
  · refine ⟨wordKind t, ?_⟩
    have closes : wordKind t ≠ .rightBracket := by
      intro h
      simpa [h] using wordKind_mem t
    rcases moves.of_word hk with rfl | ⟨calls, awaits⟩
    · refine ⟨.word (.inl rfl) word, closes, ?_⟩
      by_cases hw : t = trueSpelling ∨ t = falseSpelling
      · exact .inr ⟨rfl, hw⟩
      · rw [not_or] at hw
        simp [wordKind, hw, expected]
    · exact ⟨.word (.inr awaits.context_eq) word, closes,
        .inl (awaits.words_expected _ (wordKind_mem t))⟩
  · refine ⟨.number, ?_, by simp, .inl moves.mem_expected.1⟩
    cases moves with
    | number awaits => exact .number (.inr awaits.context_eq) digits
  · refine ⟨.memberName, ?_, by simp, .inl moves.mem_expected.1⟩
    cases moves with
    | memberName => exact .member name
  · refine ⟨.stringChars, ?_, by simp, .inl moves.mem_expected.1⟩
    cases moves with
    | stringChars => exact .stringChars ht chars

/-- Over what is left of a token a run comes to a place again. The limit has room for one call more,
since a boolean literal that is cut may look like the name of a call. -/
theorem exists_leads_of_cut {limit : Nat} {state next : State} {kind : TokenKind}
    {w t t' : List Char} (moves : Moves state kind (String.ofList (t ++ t')) next)
    (skips : state.context.Skips w) (spells : state.context.Spells kind (t ++ t')) (ht : t ≠ [])
    (ht' : t' ≠ []) (hd : state.depth < limit) :
    (∃ next', Leads limit state (w ++ t) [] next' ∧ ∀ expression, next' ≠ .ending expression) ∨
      state = .outerName ∧ (t = trueSpelling ∨ t = falseSpelling) := by
  obtain ⟨kind', spells', closes, expected | name⟩ := exists_spells_of_cut moves spells ht ht'
  · obtain ⟨next', moves', deeper⟩ :=
      exists_moves expected spells'.kind_ne_endOfInput (String.ofList t)
    have enters (h : kind' = .functionName) : next'.depth ≤ limit := Nat.le_trans (deeper h) hd
    exact .inl ⟨next', .token skips spells' (by simp) moves' enters, moves'.next_ne_ending closes⟩
  · exact .inr name

end State

end ConfigExpr
