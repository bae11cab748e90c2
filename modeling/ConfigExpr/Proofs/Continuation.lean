import ConfigExpr.Proofs.Reading

/-! A run over a part of a source does not depend on what follows it. `ComesTo` says that a text
takes every run to a place and leaves nothing there but what the place skips. Then the place is
settled by the text alone: `ComesTo.unique` holds across limits and across sources. -/
namespace ConfigExpr

open Grammar

namespace State

/-- The characters that could prolong the token before the place. -/
def absorbs : State → Char → Bool
  | callOpening _, c | afterArgument _, c | afterCall _ _, c => isWordChar c
  | stringEnd _ _, c => c != quoteMark
  | _, _ => false

def EndsBefore (state : State) (text : List Char) : Prop := ∀ c ∈ text.head?, ¬ state.absorbs c

theorem Moves.absorbs {state next : State} {kind : TokenKind} {text : String} {c : Char}
    (moves : Moves state kind text next) (h : state.context.absorbs kind c) : next.absorbs c := by
  cases moves with
  | outerName => exact h
  | innerName awaits =>
    rw [awaits.context_eq] at h
    exact h
  | number awaits =>
    rw [awaits.context_eq] at h
    exact isWordChar_of_isDigit h
  | trueWord awaits =>
    rw [awaits.context_eq] at h
    exact h
  | falseWord awaits =>
    rw [awaits.context_eq] at h
    exact h
  | stringChars => exact h
  | memberName => exact h
  | openQuote awaits =>
    rw [awaits.context_eq] at h
    contradiction
  | _ => contradiction

/-- Outside string literals a blank prolongs nothing. -/
theorem not_absorbs_of_isBlank {state : State} {b : Char} (outside : state.context ≠ .inString)
    (blank : isBlank b) : ¬ state.absorbs b := by
  have word : ¬ isWordChar b := fun hw => not_isBlank_of_isWordChar hw blank
  cases state with
  | callOpening => exact word
  | afterArgument => exact word
  | afterCall => exact word
  | stringEnd => exact absurd rfl outside
  | _ => simp [absorbs]

theorem endsBefore_append {state : State} {w t : List Char} (skips : state.context.Skips w)
    (ht : state.EndsBefore t) : state.EndsBefore (w ++ t) := by
  cases w with
  | nil => exact ht
  | cons b w =>
    intro c hc
    obtain rfl : b = c := by simpa using hc
    have outside : state.context ≠ .inString := fun h => by simpa using skips.2 h
    exact not_absorbs_of_isBlank outside (skips.1 b List.mem_cons_self)

theorem endsBefore_of_skips {state : State} {w : List Char} (skips : state.context.Skips w) :
    state.EndsBefore w := by
  have nothing : state.EndsBefore [] := by simp [EndsBefore]
  simpa using endsBefore_append skips nothing

end State

namespace Reader

variable {limit limit' : Nat} {a b c : Reader} {s t : List Token}

theorem Reads.eq_of_rest_eq (reads : Reads limit a s b) (h : a.cursor.rest = b.cursor.rest) :
    a = b := by
  cases reads with
  | here => rfl
  | token pulled moved reads =>
    obtain ⟨u, hu, hne, -⟩ := (shifts_of_step pulled moved).rest_eq
    obtain ⟨v, hv, -⟩ := reads.rest_eq
    rw [hu, hv, ← List.append_assoc] at h
    have both : u ++ v = [] := List.append_left_eq_self.mp h
    exact absurd (List.append_eq_nil_iff.mp both).1 hne

/-- The tokens of a part of the source are cut alike in front of any other text, unless that starts
with a character that the source does not have there and that prolongs the last of them. -/
theorem Reads.leads (reads : Reads limit a s b) {v y : List Char}
    (hv : a.cursor.rest = v ++ b.cursor.rest)
    (hy : ∀ c ∈ y.head?, b.state.absorbs c → c ∈ b.cursor.rest.head?) :
    Leads limit a.state v y b.state := by
  induction reads generalizing v with
  | here =>
    obtain rfl : v = [] := List.append_left_eq_self.mp hv.symm
    exact fun p => ⟨[], .here⟩
  | @token reader next last cursor token tokens pulled moved reads ih =>
    obtain ⟨v', hr, -⟩ := reads.rest_eq
    have others := ih hr hy
    have alone : v' = [] → next = last := fun h => reads.eq_of_rest_eq (by simpa [h] using hr)
    cases shifts_of_step pulled moved with
    | @mk p w text r state kind next skips spells ends moves hd =>
      simp only at hr hv alone
      obtain rfl : w ++ text ++ v' = v := by
        rw [hr, ← List.append_assoc] at hv
        exact List.append_cancel_right hv
      refine Leads.trans (.token skips spells ?_ moves hd) others
      intro c hc ha
      apply ends c _ ha
      cases v' with
      | nil =>
        rw [← alone rfl] at hy
        exact hy c hc (moves.absorbs ha)
      | cons d v' =>
        rw [hr]
        exact hc

theorem Reads.exists_behind {source : String} (reads : Reads limit (start source) s b) :
    ∃ behind, source.toList = behind ++ b.cursor.rest ∧ b.cursor.position = behind.length := by
  obtain ⟨behind, hs, hp⟩ := reads.rest_eq
  exact ⟨behind, hs, hp.trans (Nat.zero_add _)⟩

/-- Another source that begins with the same text comes to the same place behind it. -/
theorem Reads.other_source {source other : String} {behind y : List Char}
    (reads : Reads limit (start source) s b) (hs : source.toList = behind ++ b.cursor.rest)
    (ho : other.toList = behind ++ y)
    (hy : ∀ c ∈ y.head?, b.state.absorbs c → c ∈ b.cursor.rest.head?) :
    ∃ t, Reads limit (start other) t ⟨b.state, ⟨behind.length, y⟩⟩ := by
  obtain ⟨t, reads'⟩ := reads.leads hs hy 0
  rw [← ho, Nat.zero_add] at reads'
  exact ⟨t, reads'⟩

theorem Reads.linear (first : Reads limit a s b) (second : Reads limit a t c) :
    (∃ s', Reads limit b s' c) ∨ ∃ t', Reads limit c t' b := by
  induction first generalizing t with
  | here => exact .inl ⟨t, second⟩
  | @token reader next last cursor token tokens pulled moved reads ih =>
    cases second with
    | here => exact .inr ⟨_, .token pulled moved reads⟩
    | token _ moved' reads' =>
      obtain rfl := Step.more.inj (moved.symm.trans moved')
      exact ih reads'

theorem Reads.eq_of_skips (reads : Reads limit a s b)
    (skips : a.state.context.Skips a.cursor.rest) : a = b := by
  cases reads with
  | here => rfl
  | token pulled moved _ =>
    cases shifts_of_step pulled moved with
    | @mk p w text r state kind next _ spells _ _ _ =>
      obtain ⟨blanks, inString⟩ := skips
      obtain ⟨x, rest, rfl⟩ := List.exists_cons_of_ne_nil spells.ne_nil
      by_cases inside : state.context = .inString
      · exact absurd (inString inside) (by simp)
      · have first := spells.atToken r inside x (by simp)
        exact absurd (blanks x (by simp)) first

end Reader

/-- Whatever follows the text, a run over it comes to the place and has nothing left but what is
skipped there. -/
def ComesTo (limit : Nat) (text : List Char) (state : State) : Prop :=
  ∃ v w, text = v ++ w ∧ state.context.Skips w ∧
    ∀ limit' y, limit ≤ limit' → state.EndsBefore y → Leads limit' .start v y state

theorem Reader.Reads.comesTo {limit : Nat} {source : String} {tokens : List Token}
    {reader : Reader} {w r : List Char} (reads : Reads limit (start source) tokens reader)
    (hr : reader.cursor.rest = w ++ r) (skips : reader.state.context.Skips w) :
    ∃ text, source.toList = text ++ r ∧ text.length = reader.cursor.position + w.length ∧
      ComesTo limit text reader.state := by
  obtain ⟨v, hv, hp⟩ := reads.rest_eq
  refine ⟨v ++ w, ?_, ?_, v, w, rfl, skips, fun limit' y hl hy =>
    (reads.mono hl).leads hv fun c hc ha => absurd ha (hy c hc)⟩
  · rw [List.append_assoc, ← hr]
    exact hv
  · rw [hp, List.length_append]
    simp [start, Cursor.start]

namespace ComesTo

variable {limit limit' : Nat} {text rest : List Char} {state state' : State}

/-- The place that a text leads to does not depend on the source or on the limit. -/
theorem unique (h : ComesTo limit text state) (h' : ComesTo limit' text state') :
    state = state' := by
  obtain ⟨v, w, rfl, skips, leads⟩ := h
  obtain ⟨v', w', hv, skips', leads'⟩ := h'
  obtain ⟨s, reads⟩ :=
    leads (max limit limit') w (Nat.le_max_left ..) (State.endsBefore_of_skips skips) 0
  obtain ⟨t, reads'⟩ :=
    leads' (max limit limit') w' (Nat.le_max_right ..) (State.endsBefore_of_skips skips') 0
  rw [← hv] at reads'
  rcases reads.linear reads' with ⟨_, between⟩ | ⟨_, between⟩
  · exact congrArg Reader.state (between.eq_of_skips skips)
  · exact (congrArg Reader.state (between.eq_of_skips skips')).symm

theorem reads (h : ComesTo limit text state) (hl : limit ≤ limit') {y : List Char}
    (hy : state.EndsBefore y) :
    ∃ p w tokens, p + w.length = text.length ∧ state.context.Skips w ∧
      Reader.Reads limit' (Reader.start (String.ofList text ++ String.ofList y)) tokens
        ⟨state, ⟨p, w ++ y⟩⟩ := by
  obtain ⟨v, w, rfl, skips, leads⟩ := h
  obtain ⟨tokens, reads⟩ := leads limit' (w ++ y) hl (State.endsBefore_append skips hy) 0
  refine ⟨v.length, w, tokens, by simp, skips, ?_⟩
  have source : (String.ofList (v ++ w) ++ String.ofList y).toList = v ++ (w ++ y) := by simp
  rw [Nat.zero_add] at reads
  rwa [Reader.start, Cursor.start, source]

end ComesTo

end ConfigExpr
