import ConfigExpr.Proofs.Nesting
import ConfigExpr.Proofs.Prefix

/-! Derivations are read. `Leads` says that a run gets from one place to another over a text,
wherever in a source the text stands, and each rule of the grammar has a lemma that says where its
text leads to. `parse_accepts_grammar` joins this with the converse in `Prefix`: a source is read
as the trees that it derives within the limit, and it derives one at most. -/
namespace ConfigExpr

open Grammar

/-- Over the first text, and with the second one to follow, a run gets from place to place. -/
def Leads (limit : Nat) (state : State) (text rest : List Char) (next : State) : Prop :=
  ∀ p, ∃ tokens, Reader.Reads limit ⟨state, ⟨p, text ++ rest⟩⟩ tokens
    ⟨next, ⟨p + text.length, rest⟩⟩

def Apart (text : List Char) : Prop := ∀ c ∈ text.head?, ¬ isWordChar c

theorem apart_of_blanks {w r : List Char} {c : Char} (hw : Blanks w) (hc : ¬ isWordChar c) :
    Apart (w ++ c :: r) := by
  intro x hx
  cases w with
  | nil =>
    obtain rfl : c = x := by simpa using hx
    exact hc
  | cons b w =>
    obtain rfl : b = x := by simpa using hx
    exact fun hb => not_isBlank_of_isWordChar hb (hw b List.mem_cons_self)

theorem apart_cons {c : Char} (hc : ¬ isWordChar c) (r : List Char) : Apart (c :: r) :=
  apart_of_blanks .nil hc

namespace Leads

variable {limit : Nat} {state middle next : State} {u v w rest : List Char}

theorem trans (first : Leads limit state u (v ++ rest) middle)
    (second : Leads limit middle v rest next) : Leads limit state (u ++ v) rest next := by
  intro p
  obtain ⟨s, reads⟩ := first p
  obtain ⟨t, reads'⟩ := second (p + u.length)
  rw [List.append_assoc, List.length_append, ← Nat.add_assoc]
  exact ⟨s ++ t, reads.append reads'⟩

theorem run_eq (h : Leads limit state u rest next) (p : Nat) :
    Reader.run limit ⟨state, ⟨p, u ++ rest⟩⟩ = Reader.run limit ⟨next, ⟨p + u.length, rest⟩⟩ := by
  obtain ⟨tokens, reads⟩ := h p
  exact reads.run_eq

theorem token {kind : TokenKind} {text : List Char} (skips : state.context.Skips w)
    (spells : state.context.Spells kind text)
    (ends : ∀ c ∈ rest.head?, ¬ state.context.absorbs kind c)
    (moves : State.Moves state kind (String.ofList text) next)
    (hd : kind = .functionName → next.depth ≤ limit) :
    Leads limit state (w ++ text) rest next := by
  intro p
  have shifts := Reader.Shifts.mk (p := p) skips spells ends moves hd
  rw [List.length_append, ← Nat.add_assoc]
  exact ⟨_, .token shifts.pull_eq shifts.step_eq .here⟩

theorem mark {kind : TokenKind} {c : Char}
    (place : state.context = .topLevel ∨ state.context = .inArguments) (hw : Blanks w)
    (mark : punctuation? c = some kind)
    (moves : State.Moves state kind (String.ofList [c]) next) :
    Leads limit state (w ++ [c]) rest next := by
  refine token (hw.skips (Context.ne_inString place)) (.punctuation place mark) ?_ moves ?_
  · simp [absorbs_of_punctuation? mark]
  · rintro rfl
    have fits : isFunctionName [c] := fits_of_punctuation? mark
    simp only [isFunctionName, Bool.and_eq_true] at fits
    exact absurd (isWordChar_of_isAlpha fits.1.1.1) (not_word_or_blank_of_punctuation? mark).1

theorem name {calls : OpenCalls} {name : String}
    (place : state.context = .topLevel ∨ state.context = .inArguments) (hw : Blanks w)
    (hn : isFunctionName name.toList) (apart : Apart rest)
    (moves : State.Moves state .functionName name (.callOpening calls))
    (hd : calls.depth ≤ limit) :
    Leads limit state (w ++ name.toList) rest (.callOpening calls) := by
  refine token (hw.skips (Context.ne_inString place)) (spells_functionName place hn) ?_ ?_
    fun _ => hd
  · rw [absorbs_functionName]
    exact apart
  · rwa [String.ofList_toList]

theorem inside {kind : TokenKind} {text : List Char} (place : state.context = .inString)
    (spells : Context.inString.Spells kind text)
    (ends : ∀ c ∈ rest.head?, ¬ Context.inString.absorbs kind c)
    (moves : State.Moves state kind (String.ofList text) next) (hk : kind ≠ .functionName) :
    Leads limit state text rest next :=
  token (w := []) ⟨.nil, fun _ => rfl⟩ (place ▸ spells) (place ▸ ends) moves fun h => absurd h hk

end Leads

namespace OpenCalls

theorem foldl_push (arguments : List Argument) (calls : OpenCalls) :
    arguments.foldl push calls =
      { calls with
        innermost := ⟨calls.innermost.name, arguments.reverse ++ calls.innermost.arguments⟩ } := by
  induction arguments generalizing calls with
  | nil => rfl
  | cons x r ih => simp [ih, push]

/-- A call that is entered and filled comes back as an argument. -/
theorem leave_enter (calls : OpenCalls) (name : String) (arguments : List Argument) :
    (arguments.foldl push (calls.enter name)).leave =
      .afterArgument (calls.push (.call name arguments)) := by
  simp [foldl_push, enter, leave, push, Call.toArgument]

theorem leave_outermost (name : String) (arguments : List Argument) :
    (arguments.foldl push (outermost name)).leave = .afterCall ⟨name, arguments⟩ [] := by
  simp [foldl_push, outermost, leave]

end OpenCalls

section

variable {limit : Nat} {state : State} {calls : OpenCalls} {text w r : List Char}

theorem leads_string {content : String} (awaits : State.Awaits state calls) (hw : Blanks w)
    (hc : isStringText content.toList) :
    Leads limit state (w ++ (quoteMark :: content.toList ++ [quoteMark])) r
      (.afterArgument (calls.push (.string content))) := by
  have opens (rest : List Char) : Leads limit state (w ++ [quoteMark]) rest (.stringBody calls) :=
    .mark (.inr awaits.context_eq) hw rfl (.openQuote awaits)
  by_cases hne : content.toList = []
  · obtain rfl : content = "" := by simpa using hne
    have closes : Leads limit (.stringBody calls) [quoteMark] r _ :=
      .inside rfl .quote (by simp [Context.absorbs]) .emptyString (by simp)
    simpa using (opens ([quoteMark] ++ r)).trans closes
  · have chars : Leads limit (.stringBody calls) content.toList ([quoteMark] ++ r) _ :=
      .inside rfl (.stringChars hne hc) (by simp [Context.absorbs]) .stringChars (by simp)
    rw [String.ofList_toList] at chars
    have closes : Leads limit (.stringEnd calls content) [quoteMark] r _ :=
      .inside rfl .quote (by simp [Context.absorbs]) .closeQuote (by simp)
    simpa using ((opens _).trans chars).trans closes

theorem leads_afterName {name : String} {arguments : List Argument} (calls : OpenCalls)
    (r : List Char) (h : CallText text name arguments)
    (inner : ∀ {t v s : List Char}, ArgumentsText t arguments → Blanks v → Apart s →
      Leads limit (.firstArgument calls) (v ++ t) s
        (.afterArgument (arguments.foldl OpenCalls.push calls))) :
    ∃ t, text = name.toList ++ t ∧ isFunctionName name.toList ∧ Apart (t ++ r) ∧
      Leads limit (.callOpening calls) t r (arguments.foldl OpenCalls.push calls).leave := by
  cases h with
  | @bare _ u v hn hu hv =>
    have opens : Leads limit (.callOpening calls) (u ++ ['(']) (v ++ [')'] ++ r) _ :=
      .mark (.inl rfl) hu rfl .opening
    have closes : Leads limit (.firstArgument calls) (v ++ [')']) r _ :=
      .mark (.inr rfl) hv rfl .noArguments
    refine ⟨u ++ '(' :: v ++ [')'], by simp, hn, ?_, by simpa using opens.trans closes⟩
    simpa using apart_of_blanks (r := v ++ ')' :: r) hu (by decide)
  | @applied _ u v x t _ hn hu hv hx hargs =>
    have opens : Leads limit (.callOpening calls) (u ++ ['(']) (v ++ t ++ (x ++ [')'] ++ r)) _ :=
      .mark (.inl rfl) hu rfl .opening
    have apart : Apart (x ++ [')'] ++ r) := by
      simpa using apart_of_blanks (c := ')') (r := r) hx (by decide)
    have reads := inner hargs hv apart
    have closes : Leads limit (.afterArgument (arguments.foldl OpenCalls.push calls))
        (x ++ [')']) r _ := .mark (.inl rfl) hx rfl .closing
    refine ⟨u ++ '(' :: v ++ t ++ x ++ [')'], by simp, hn, ?_, ?_⟩
    · simpa using apart_of_blanks (r := v ++ (t ++ (x ++ ')' :: r))) hu (by decide)
    · simpa using (opens.trans reads).trans closes

theorem leads_number {digits : String} (awaits : State.Awaits state calls) (hw : Blanks w)
    (hn : isNumber digits.toList) (apart : Apart r) :
    Leads limit state (w ++ digits.toList) r (.afterArgument (calls.push (.number digits))) := by
  have spells : state.context.Spells .number digits.toList := .number (.inr awaits.context_eq) hn
  refine .token (hw.skips awaits.outside) spells ?_ ?_ (by simp)
  · intro c hc hd
    rw [awaits.context_eq] at hd
    exact apart c hc (isWordChar_of_isDigit hd)
  · rw [String.ofList_toList]
    exact .number awaits

theorem leads_boolean (value : Bool) (awaits : State.Awaits state calls) (hw : Blanks w)
    (apart : Apart r) :
    Leads limit state (w ++ if value then trueSpelling else falseSpelling) r
      (.afterArgument (calls.push (.boolean value))) := by
  have skips := hw.skips awaits.outside
  have ends (kind : TokenKind) (h : Context.inArguments.absorbs kind = isWordChar) :
      ∀ c ∈ r.head?, ¬ state.context.absorbs kind c := by
    rw [awaits.context_eq, h]
    exact apart
  have place := Or.inr (a := state.context = .topLevel) awaits.context_eq
  cases value with
  | true => exact .token skips (spells_true place) (ends _ rfl) (.trueWord awaits) (by simp)
  | false => exact .token skips (spells_false place) (ends _ rfl) (.falseWord awaits) (by simp)

end

/-! The induction is on the tree, and the derivation comes apart with it. The bound on the depth
says that every call of the argument may still be entered below the open ones. -/

mutual

theorem leads_argument {limit : Nat} : ∀ (x : Argument) {state : State} {calls : OpenCalls}
    {w text r : List Char}, State.Awaits state calls → Blanks w → ArgumentText text x → Apart r →
    calls.depth + x.depth ≤ limit →
    Leads limit state (w ++ text) r (.afterArgument (calls.push x))
  | .call name arguments, state, calls, w, text, r, awaits, hw, .call h, apart, hd => by
    simp only [Argument.depth] at hd
    obtain ⟨t, rfl, hn, ht, rest⟩ := leads_afterName (calls.enter name) r h
      fun {t v s} ht hv hs => leads_arguments arguments .first hv ht hs
        (show calls.depth + 1 + _ ≤ limit by omega)
    have enters : Leads limit state (w ++ name.toList) (t ++ r) _ :=
      .name (.inr awaits.context_eq) hw hn ht (.innerName awaits)
        (show calls.depth + 1 ≤ limit by omega)
    rw [OpenCalls.leave_enter] at rest
    simpa using enters.trans rest
  | .string _, _, _, _, _, _, awaits, hw, .string h, _, _ => leads_string awaits hw h
  | .number _, _, _, _, _, _, awaits, hw, .number h, apart, _ => leads_number awaits hw h apart
  | .boolean _, _, _, _, _, _, awaits, hw, .trueWord, apart, _ =>
    leads_boolean true awaits hw apart
  | .boolean _, _, _, _, _, _, awaits, hw, .falseWord, apart, _ =>
    leads_boolean false awaits hw apart

theorem leads_arguments {limit : Nat} : ∀ (xs : List Argument) {state : State}
    {calls : OpenCalls} {w text r : List Char}, State.Awaits state calls → Blanks w →
    ArgumentsText text xs → Apart r → calls.depth + Argument.depthOfList xs ≤ limit →
    Leads limit state (w ++ text) r (.afterArgument (xs.foldl OpenCalls.push calls))
  | [x], _, _, _, _, _, awaits, hw, .last h, apart, hd => by
    simp only [Argument.depthOfList] at hd
    exact leads_argument x awaits hw h apart (by omega)
  | x :: xs, state, calls, w, _, r, awaits, hw, @ArgumentsText.more text u v rest _ _ h hu hv hr,
      apart, hd => by
    simp only [Argument.depthOfList] at hd
    have apart' : Apart (u ++ [','] ++ (v ++ rest ++ r)) := by
      simpa using apart_of_blanks (c := ',') (r := v ++ (rest ++ r)) hu (by decide)
    have first : Leads limit state (w ++ text) _ _ :=
      leads_argument x awaits hw h apart' (by omega)
    have comma : Leads limit (.afterArgument (calls.push x)) (u ++ [',']) (v ++ rest ++ r) _ :=
      .mark (.inl rfl) hu rfl .comma
    have others : Leads limit (.nextArgument (calls.push x)) (v ++ rest) r _ :=
      leads_arguments xs .next hv hr apart (show calls.depth + _ ≤ limit by omega)
    simpa using (first.trans comma).trans others

end

theorem leads_members {limit : Nat} (function : Call) (members : List String)
    {names : List String} {text r : List Char} (h : MembersText text names) (apart : Apart r) :
    Leads limit (.afterCall function members) text r
      (.afterCall function (names.reverse ++ members)) := by
  induction h generalizing members with
  | none => exact fun p => ⟨[], .here⟩
  | @more u v rest names name hu hv hn hr ih =>
    specialize ih (name :: members)
    have dot : Leads limit (.afterCall function members) (u ++ ['.'])
        (v ++ name.toList ++ (rest ++ r)) _ := .mark (.inl rfl) hu rfl .dot
    have ends : Apart (rest ++ r) := by
      cases hr with
      | none => exact apart
      | @more u' v' rest' _ name' hu' _ _ _ =>
        simpa using apart_of_blanks (c := '.') (r := v' ++ (name'.toList ++ (rest' ++ r))) hu'
          (by decide)
    have member : Leads limit (.memberName function members) (v ++ name.toList) (rest ++ r)
        (.afterCall function (name :: members)) := by
      refine .token (hv.skips (by simp [State.context])) (.member hn) ends ?_ (by simp)
      rw [String.ofList_toList]
      exact .memberName
    simpa using (dot.trans member).trans ih

/-- Up to the closing bracket, and whatever comes after it. -/
theorem leads_brackets {limit : Nat} {u v w t m x : List Char} {name : String}
    {arguments : List Argument} {names : List String} (hu : Blanks u) (hv : Blanks v)
    (hc : CallText t name arguments) (hm : MembersText m names) (hw : Blanks w)
    (hd : Call.depth ⟨name, arguments⟩ ≤ limit) :
    Leads limit .start (u ++ '[' :: v ++ t ++ m ++ w ++ [']']) x
      (.ending ⟨⟨name, arguments⟩, names⟩) := by
  change 1 + Argument.depthOfList arguments ≤ limit at hd
  have apart : Apart (w ++ [']'] ++ x) := by
    simpa using apart_of_blanks (c := ']') (r := x) hw (by decide)
  obtain ⟨s, rfl, hn, hs, call⟩ := leads_afterName (.outermost name)
    (m ++ (w ++ [']'] ++ x)) hc fun ht hv hs => leads_arguments arguments .first hv ht hs hd
  rw [OpenCalls.leave_outermost] at call
  have opens : Leads limit .start (u ++ ['[']) (v ++ name.toList ++ (s ++ (m ++ (w ++ [']'] ++ x))))
      _ := .mark (.inl rfl) hu rfl .bracket
  have enters : Leads limit .outerName (v ++ name.toList) (s ++ (m ++ (w ++ [']'] ++ x))) _ :=
    .name (.inl rfl) hv hn hs .outerName (show 1 ≤ limit by omega)
  have members : Leads limit (.afterCall ⟨name, arguments⟩ []) m _ _ := leads_members _ _ hm apart
  have closes : Leads limit (.afterCall ⟨name, arguments⟩ (names.reverse ++ [])) (w ++ [']']) x _ :=
    .mark (.inl rfl) hw rfl .closeBracket
  simpa using (((opens.trans enters).trans call).trans members).trans closes

/-- What the grammar derives is read, unless its calls nest beyond the limit. -/
theorem parse_of_expressionText {limit : Nat} {source : String} {expression : Expression}
    (h : ExpressionText source.toList expression) (hd : expression.depth ≤ limit) :
    Expression.parse ⟨limit⟩ source = .ok expression := by
  generalize hs : source.toList = text at h
  cases h with
  | @brackets u v w x t m name arguments names hu hv hc hm hw hx =>
    obtain ⟨tokens, reads⟩ := leads_brackets (x := x) hu hv hc hm hw hd 0
    have start : Reader.start source =
        ⟨.start, ⟨0, u ++ '[' :: v ++ t ++ m ++ w ++ [']'] ++ x⟩⟩ := by
      simp [Reader.start, Cursor.start, hs]
    rw [← start] at reads
    exact Reader.run_eq_iff.mpr ⟨tokens, _, reads, Reader.step_eq_accept_iff.mpr ⟨rfl, hx⟩⟩

theorem parse_eq_ok_iff {limit : Nat} {source : String} {expression : Expression} :
    Expression.parse ⟨limit⟩ source = .ok expression ↔
      ExpressionText source.toList expression ∧ expression.depth ≤ limit := by
  constructor
  · intro h
    exact ⟨expressionText_of_parse h, depth_le_of_parse h⟩
  · rintro ⟨h, hd⟩
    exact parse_of_expressionText h hd

/-- The derivation does not mention the reader, but reading is what makes it unique. -/
theorem expressionText_unique {source : String} {a b : Expression}
    (ha : ExpressionText source.toList a) (hb : ExpressionText source.toList b) : a = b := by
  let limit := max a.depth b.depth
  have hpa : Expression.parse ⟨limit⟩ source = .ok a :=
    parse_of_expressionText ha (Nat.le_max_left ..)
  have hpb : Expression.parse ⟨limit⟩ source = .ok b :=
    parse_of_expressionText hb (Nat.le_max_right ..)
  exact Except.ok.inj (hpa.symm.trans hpb)

/-- The reader accepts just what the grammar derives within the limit, and no source derives two
trees. -/
theorem parse_accepts_grammar (source : String) :
    (∀ limit expression, Expression.parse ⟨limit⟩ source = .ok expression ↔
      ExpressionText source.toList expression ∧ expression.depth ≤ limit) ∧
    (∀ a b, ExpressionText source.toList a → ExpressionText source.toList b → a = b) :=
  ⟨fun _ _ => parse_eq_ok_iff, fun _ _ => expressionText_unique⟩

end ConfigExpr
