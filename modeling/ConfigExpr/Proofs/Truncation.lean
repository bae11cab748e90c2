import ConfigExpr.Proofs.BlankInsertion
import ConfigExpr.Proofs.Completion
import ConfigExpr.Proofs.CutToken
import ConfigExpr.Proofs.Quotes
import Mathlib.Data.List.TakeWhile

/-! An expression that is cut off, and one that goes on behind its bracket. `endsEarly_of_leads`
says how a text is refused that leaves no token at the place where it comes to, `endsEarly_of_cut`
that a source which is cut off is such a text, and `run_ending` what may stand behind the
bracket. -/
namespace ConfigExpr

open Grammar

def ClosesAt (source : List Char) (position : Nat) : Prop :=
  source[position]? = some ']' ∧ Blanks (source.drop (position + 1))

/-- All that is left of the outer call is a name, and the name is spelled like a boolean literal. -/
structure NameCut (text lead word : List Char) : Prop where
  text_eq : text = lead ++ word
  lead : Inside lead []
  word : word = trueSpelling ∨ word = falseSpelling

def State.earlyEnd (state : State) (position : Nat) : ParseError :=
  if state.context = .inString then .lexical position .endOfInput state.expected
  else .unexpectedEndOfInput position state.expected

/-- The text is refused at its end, by a lexical error if that is inside a string literal. -/
def EndsEarly (limit : Nat) (text : List Char) : Prop :=
  ∃ error, Expression.parse ⟨limit⟩ (String.ofList text) = .error error ∧
    error.found = .endOfInput ∧ error.position = text.length ∧
    error.kind = if text.count quoteMark % 2 = 1 then .lexical else .unexpectedEndOfInput

namespace Reader

variable {limit p : Nat} {state : State} {w r : List Char}

theorem run_eq_earlyEnd (skips : state.context.Skips w)
    (unfinished : ∀ expression, state ≠ .ending expression) :
    run limit ⟨state, ⟨p, w⟩⟩ = .error (state.earlyEnd (p + w.length)) := by
  have fails : Fails limit ⟨state, ⟨p, w⟩⟩ (state.earlyEnd (p + w.length)) := by
    by_cases inside : state.context = .inString
    · obtain rfl := skips.2 inside
      rw [State.earlyEnd, if_pos inside]
      exact @Fails.lexical limit ⟨state, ⟨p, []⟩⟩ ⟨p, []⟩ _ (.openString inside)
    · have refused : TokenKind.endOfInput ∉ state.expected := by
        intro expected
        obtain ⟨expression, h⟩ := State.eq_ending expected
        exact unfinished expression h
      rw [State.earlyEnd, if_neg inside]
      exact @Fails.refused limit ⟨state, ⟨p, w⟩⟩ _ _ (.endOfInput inside skips.1) refused
  exact run_eq_iff.mpr ⟨[], _, .here, step_eq_error_iff.mpr fails⟩

theorem Fails.expected_eq {reader : Reader} {error : ParseError} (h : Fails limit reader error)
    (unnamed : .functionName ∉ reader.state.expected) :
    error.expected = reader.state.expected := by
  cases h with
  | lexical _ => rfl
  | refused _ _ => exact refusal_expected ..
  | tooDeep _ name expected _ =>
    rw [name] at expected
    exact absurd expected unnamed

/-- What stands behind the bracket of a complete expression is refused at its first character. -/
theorem exists_fails_ending (expression : Expression) {c : Char} (hc : ¬ isBlank c) :
    ∃ error, Fails limit ⟨.ending expression, ⟨p, c :: r⟩⟩ error ∧
      error.expected = [.endOfInput] ∧ error.position = p := by
  cases moved : step limit ⟨.ending expression, ⟨p, c :: r⟩⟩ with
  | more next =>
    obtain ⟨after, token, pulled⟩ := exists_pull_of_step moved
    have ended (reader : Reader) (shifts : Shifts limit reader token next) :
        reader.state ≠ .ending expression := by
      cases shifts with
      | mk _ _ _ moves _ => exact moves.ne_ending expression
    exact absurd rfl (ended _ (shifts_of_step pulled moved))
  | done result =>
    cases result with
    | ok tree =>
      have blanks := (step_eq_accept_iff.mp moved).2
      exact absurd (blanks c List.mem_cons_self) hc
    | error error =>
      have fails := step_eq_error_iff.mp moved
      obtain ⟨w, r', hr, ⟨hw, -⟩, position, -⟩ := fails.gap
      refine ⟨error, fails, fails.expected_eq (by simp [State.expected]), ?_⟩
      cases w with
      | nil => exact position
      | cons b w =>
        obtain rfl : c = b := (List.cons.inj hr).1
        exact absurd (hw c List.mem_cons_self) hc

theorem run_ending (expression : Expression) (rest : List Char) :
    (Blanks rest → run limit ⟨.ending expression, ⟨p, rest⟩⟩ = .ok expression) ∧
    (¬ Blanks rest → ∃ error, run limit ⟨.ending expression, ⟨p, rest⟩⟩ = .error error ∧
      error.expected = [.endOfInput] ∧
      error.position = p + (rest.takeWhile isBlank).length) := by
  constructor
  · intro blanks
    exact run_eq_iff.mpr ⟨[], _, .here, step_eq_accept_iff.mpr ⟨rfl, blanks⟩⟩
  · intro stray
    cases hd : rest.dropWhile isBlank with
    | nil => exact absurd (List.dropWhile_eq_nil_iff.mp hd) stray
    | cons c r =>
      have hc : ¬ isBlank c := by
        have := List.head?_dropWhile_not isBlank rest
        simpa [hd] using this
      have hw : Blanks (rest.takeWhile isBlank) := fun c hc => List.mem_takeWhile_imp hc
      obtain ⟨error, fails, expected, position⟩ := exists_fails_ending expression hc
      refine ⟨error, ?_, expected, position⟩
      have split : rest = rest.takeWhile isBlank ++ c :: r := by
        rw [← hd, List.takeWhile_append_dropWhile]
      calc run limit ⟨.ending expression, ⟨p, rest⟩⟩
        _ = run limit ⟨.ending expression, ⟨p, rest.takeWhile isBlank ++ c :: r⟩⟩ := by
          rw [← split]
        _ = run limit ⟨.ending expression, ⟨p + (rest.takeWhile isBlank).length, c :: r⟩⟩ :=
          run_append_blanks (by simp [State.context]) hw
        _ = .error error := run_eq_iff.mpr ⟨[], _, .here, step_eq_error_iff.mpr fails⟩

end Reader

namespace State

theorem earlyEnd_found (state : State) (p : Nat) : (state.earlyEnd p).found = .endOfInput := by
  unfold earlyEnd
  split <;> rfl

theorem earlyEnd_position (state : State) (p : Nat) : (state.earlyEnd p).position = p := by
  unfold earlyEnd
  split <;> rfl

theorem earlyEnd_kind (state : State) (p : Nat) :
    (state.earlyEnd p).kind =
      if state.inside = true then .lexical else .unexpectedEndOfInput := by
  simp only [earlyEnd, inside, beq_iff_eq]
  split <;> rfl

end State

section

variable {low limit : Nat} {source : String}

theorem Leads.parse_eq {v y : List Char} {state : State} (leads : Leads limit .start v y state) :
    Expression.parse ⟨limit⟩ (String.ofList (v ++ y)) =
      Reader.run limit ⟨state, ⟨v.length, y⟩⟩ := by
  have start : Reader.start (String.ofList (v ++ y)) = ⟨.start, ⟨0, v ++ y⟩⟩ := by
    simp [Reader.start, Cursor.start]
  rw [Expression.parse, start, leads.run_eq, Nat.zero_add]

/-- A text that comes to a place and leaves no token there ends early. -/
theorem endsEarly_of_leads {state : State} {v w : List Char} (leads : Leads limit .start v w state)
    (skips : state.context.Skips w) (unfinished : ∀ expression, state ≠ .ending expression) :
    EndsEarly limit (v ++ w) := by
  obtain ⟨tokens, reads⟩ := leads 0
  have side : endsInside false (v ++ w) = state.inside := by
    rw [endsInside_append, ← reads.inside_eq (v := v) rfl]
    exact endsInside_of_not_mem (quoteMark_not_mem_of_blanks skips.1) _
  refine ⟨_, leads.parse_eq.trans (Reader.run_eq_earlyEnd skips unfinished),
    State.earlyEnd_found .., ?_, ?_⟩
  · rw [State.earlyEnd_position, List.length_append]
  · rw [State.earlyEnd_kind, ← side]
    simp only [endsInside_false_iff]

/-- An accepted source that is cut before its bracket ends early. -/
theorem endsEarly_of_cut {last : Reader} {tokens : List Token} {u r : List Char}
    (reads : Reader.Reads low (.start source) tokens last) (hl : low < limit)
    (hu : source.toList = u ++ r) (hr : last.cursor.rest.length < r.length)
    (whole : ∀ lead word, ¬ NameCut u lead word) : EndsEarly limit u := by
  obtain ⟨s, ⟨state, ⟨p, rest⟩⟩, token, next, v, t, t', reads', shifts, hv, rfl, hc, ht'⟩ :=
    reads.exists_cut hu hr
  have within : state.Within low := reads'.within trivial
  have shallow : state.depth < limit := Nat.lt_of_le_of_lt within.depth_le hl
  have reaches (y : List Char) (hy : y <+: rest) : Leads limit .start v y state := by
    refine (reads'.mono (Nat.le_of_lt hl)).leads hv fun x hx _ => ?_
    obtain ⟨y', rfl⟩ := hy
    simp [List.head?_append, Option.mem_def.mp hx]
  have stays (skips : state.context.Skips t) (h : ∀ expression, state ≠ .ending expression) :
      EndsEarly limit (v ++ t) := by
    have text : rest = t ++ (t' ++ next.cursor.rest) := hc.trans (List.append_assoc ..)
    exact endsEarly_of_leads (reaches t ⟨_, text.symm⟩) skips h
  cases shifts with
  | @mk p w text r' state kind next skips spells ends moves hd =>
    rcases List.append_eq_append_iff.mp (List.append_cancel_right hc) with
      ⟨a, rfl, rfl⟩ | ⟨b, rfl, rfl⟩
    · by_cases ha : a = []
      · subst ha
        rw [List.append_nil] at stays ⊢
        exact stays skips moves.ne_ending
      · rcases State.exists_leads_of_cut moves skips spells ha ht' shallow with
          ⟨next', leads, h⟩ | ⟨rfl, hw⟩
        · have arrives : Leads limit .start (v ++ (w ++ a)) [] next' :=
            (reaches (w ++ a ++ []) (by simp)).trans leads
          simpa using endsEarly_of_leads (w := []) arrives ⟨.nil, fun _ => rfl⟩ h
        · obtain ⟨behind, hs, -, u, rfl, hb⟩ := reads'.follows (Reader.start_follows source)
          obtain rfl : v = u ++ ['['] := List.append_cancel_right (hv.symm.trans hs)
          refine absurd ⟨?_, ?_, hw⟩ (whole (u ++ '[' :: w) a)
          · simp
          · exact .bracket hb skips.1
    · refine stays ⟨?_, ?_⟩ moves.ne_ending
      · exact fun c hc => skips.1 c (List.mem_append_left b hc)
      · exact fun inside => (List.append_eq_nil_iff.mp (skips.2 inside)).1

/-- A boolean literal is no name, so the outer call is refused at it. -/
theorem parse_nameCut {text lead word : List Char} (h : NameCut text lead word) :
    Expression.parse ⟨limit⟩ (String.ofList text) =
      .error (.unexpectedToken lead.length (wordKind word) (String.ofList word)
        [.functionName]) := by
  obtain ⟨rfl, outer, hw⟩ := h
  cases outer with
  | @bracket u v hu hv =>
    have opens : Leads limit .start (u ++ ['[']) (v ++ word) .outerName :=
      .mark (.inl rfl) hu rfl .bracket
    have spells : Context.topLevel.Spells (wordKind word) word := by
      rcases hw with rfl | rfl
      · exact spells_true (.inl rfl)
      · exact spells_false (.inl rfl)
    have unnamed : wordKind word ∉ State.outerName.expected := by
      rcases hw with rfl | rfl <;> decide
    have pulls : Cursor.Pulls .topLevel ⟨(u ++ ['[']).length, v ++ word ++ []⟩ _ _ :=
      .token (hv.skips (by simp)) spells (by simp)
    rw [List.append_nil] at pulls
    have fails := @Reader.Fails.refused limit ⟨.outerName, _⟩ _ _ pulls unnamed
    rw [Reader.refusal_eq spells.kind_ne_endOfInput, ← List.length_append] at fails
    have split : u ++ '[' :: v ++ word = u ++ ['['] ++ (v ++ word) := by simp
    have lead : (u ++ '[' :: v).length = (u ++ ['['] ++ v).length := by simp
    rw [split, opens.parse_eq, lead]
    exact Reader.run_eq_iff.mpr ⟨[], _, .here, Reader.step_eq_error_iff.mpr fails⟩

/-- Where the bracket of an accepted source stands, and the run up to it in front of any text. -/
theorem exists_leads_brackets {expression : Expression}
    (h : Expression.parse ⟨limit⟩ source = .ok expression) :
    ∃ before after, source.toList = before ++ ']' :: after ∧ Blanks after ∧
      ∀ limit', expression.depth ≤ limit' → ∀ y,
        Leads limit' .start (before ++ [']']) y (.ending expression) := by
  have text := expressionText_of_parse h
  generalize source.toList = chars at text
  cases text with
  | brackets hu hv call members hw hx =>
    exact ⟨_, _, rfl, hx, fun limit' hd y => leads_brackets hu hv call members hw hd⟩

theorem closesAt_of_append {before after : List Char} (blanks : Blanks after) :
    ClosesAt (before ++ ']' :: after) before.length := by
  have rest : (before ++ ']' :: after).drop (before.length + 1) = after := by
    rw [List.drop_length_add_append]
    rfl
  exact ⟨by simp, by rwa [rest]⟩

theorem ClosesAt.le {chars : List Char} {k k' : Nat} (h : ClosesAt chars k)
    (h' : ClosesAt chars k') : k' ≤ k := by
  apply Nat.le_of_not_lt
  intro hk
  have later : ']' ∈ chars.drop (k + 1) := by
    apply List.mem_of_getElem? (i := k' - (k + 1))
    rw [List.getElem?_drop, Nat.add_sub_cancel' hk]
    exact h'.1
  exact absurd (h.2 ']' later) (by decide)

/-- A source that is accepted with depth to spare is refused at its end if it is cut off before its
bracket, unless that leaves a boolean literal for the name of the outer call. Behind the bracket
nothing but blanks is accepted. -/
theorem parse_cut_or_continued (source : String) (limit : Nat) (expression : Expression)
    (h : Expression.parse ⟨limit⟩ source = .ok expression) :
    (∃ k, ClosesAt source.toList k) ∧ ∀ k, ClosesAt source.toList k →
      (expression.depth < limit → ∀ j ≤ k,
        ((∀ lead word, ¬ NameCut (source.toList.take j) lead word) →
          EndsEarly limit (source.toList.take j)) ∧
        ∀ lead word, NameCut (source.toList.take j) lead word →
          Expression.parse ⟨limit⟩ (String.ofList (source.toList.take j)) =
            .error (.unexpectedToken lead.length (wordKind word) (String.ofList word)
              [.functionName])) ∧
      ∀ t : String,
        (Blanks t.toList →
          Expression.parse ⟨limit⟩ (String.ofList (source.toList.take (k + 1)) ++ t) =
            .ok expression) ∧
        (¬ Blanks t.toList → ∃ error,
          Expression.parse ⟨limit⟩ (String.ofList (source.toList.take (k + 1)) ++ t) =
            .error error ∧
          error.expected = [.endOfInput] ∧
          error.position = k + 1 + (t.toList.takeWhile isBlank).length) := by
  obtain ⟨before, after, hs, blanks, leads⟩ := exists_leads_brackets h
  have closes : ClosesAt source.toList before.length := hs ▸ closesAt_of_append blanks
  refine ⟨⟨before.length, closes⟩, fun k hk => ?_⟩
  obtain rfl : k = before.length := Nat.le_antisymm (closes.le hk) (hk.le closes)
  refine ⟨fun hd j hj => ⟨fun whole => ?_, fun lead word cut => parse_nameCut cut⟩, fun t => ?_⟩
  · obtain ⟨tokens, reads⟩ := leads expression.depth (Nat.le_refl _) after 0
    have start : Reader.start source = ⟨.start, ⟨0, before ++ [']'] ++ after⟩⟩ := by
      simp [Reader.start, Cursor.start, hs]
    rw [← start] at reads
    refine endsEarly_of_cut reads hd (List.take_append_drop j source.toList).symm ?_ whole
    simp only [List.length_drop, hs, List.length_append, List.length_cons]
    omega
  · have whole : String.ofList (source.toList.take (before.length + 1)) ++ t =
        String.ofList (before ++ [']'] ++ t.toList) := by
      have kept : source.toList.take (before.length + 1) = before ++ [']'] := by
        rw [hs, List.take_length_add_append]
        rfl
      rw [kept, @String.ofList_append (before ++ [']']), String.ofList_toList]
    have arrives := (leads limit (depth_le_of_parse h) t.toList).parse_eq
    have position : (before ++ [']']).length = before.length + 1 := by simp
    rw [whole, arrives, position]
    exact Reader.run_ending expression t.toList

end

theorem NameCut.getLast?_eq {text lead word : List Char} (h : NameCut text lead word) :
    text.getLast? = some 'e' := by
  obtain ⟨rfl, -, rfl | rfl⟩ := h <;> simp [trueSpelling, falseSpelling]

/-- Cuts in a name that starts like a literal, in a string literal and in a literal that then looks
like a name, and a comma behind the bracket. -/
theorem parse_cut_or_continued_truest :
    Expression.parse ⟨3⟩ "[truest(f('日 '), true).m] " =
      .ok ⟨⟨"truest", [.call "f" [.string "日 "], .boolean true]⟩, ["m"]⟩ ∧
    Expression.parse ⟨3⟩ "[true" = .error (.unexpectedToken 1 .trueWord "true" [.functionName]) ∧
    EndsEarly 3 "[truest(f('日".toList ∧ EndsEarly 3 "[truest(f('日 '), tru".toList ∧
    Expression.parse ⟨3⟩ "[truest(f('日 '), true).m]\n\t" =
      .ok ⟨⟨"truest", [.call "f" [.string "日 "], .boolean true]⟩, ["m"]⟩ ∧
    ∃ error, Expression.parse ⟨3⟩ "[truest(f('日 '), true).m]\n," = .error error ∧
      error.expected = [.endOfInput] ∧ error.position = 26 := by
  have accepted : Expression.parse ⟨3⟩ "[truest(f('日 '), true).m] " =
      .ok ⟨⟨"truest", [.call "f" [.string "日 "], .boolean true]⟩, ["m"]⟩ :=
    Reader.run_eq_of_runWithin? 20 rfl
  have closes : ClosesAt "[truest(f('日 '), true).m] ".toList 24 := by
    constructor
    · decide
    · simp [Blanks, isBlank]
  obtain ⟨cut, continued⟩ := (parse_cut_or_continued _ _ _ accepted).2 24 closes
  have cut := cut (by decide)
  have name : NameCut ['[', 't', 'r', 'u', 'e'] ['['] trueSpelling :=
    ⟨rfl, .bracket .nil .nil, .inl rfl⟩
  refine ⟨accepted, (cut 5 (by decide)).2 ['['] trueSpelling name, ?_, ?_, ?_, ?_⟩
  · refine (cut 12 (by decide)).1 fun lead word h => ?_
    exact absurd h.getLast?_eq (by decide)
  · refine (cut 20 (by decide)).1 fun lead word h => ?_
    exact absurd h.getLast?_eq (by decide)
  · exact (continued "\n\t").1 (by simp [Blanks, isBlank])
  · exact (continued "\n,").2 (by simp [Blanks, isBlank])

end ConfigExpr
