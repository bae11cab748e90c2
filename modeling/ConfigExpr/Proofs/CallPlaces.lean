import ConfigExpr.Proofs.Reading

/-! Where the calls of a source stand. The derivations of the grammar come with a list of their
calls, in the order of the text, each with its depth and with the position of its name.
`refusedAt_of_expressionCalls` says that a run whose limit is too low ends at the first call of the
list that is one level too deep. -/
namespace ConfigExpr

namespace Grammar

mutual

/-- The text of an argument that stands at a position below a number of calls, and the calls in
it. -/
inductive ArgumentCalls : Nat → Nat → List Char → Argument → List (Nat × Nat) → Prop where
  | leaf {above p text x} : ArgumentText text x → x.depth = 0 → ArgumentCalls above p text x []
  | bare {above p u v} {name : String} : isFunctionName name.toList → Blanks u → Blanks v →
      ArgumentCalls above p (name.toList ++ u ++ '(' :: v ++ [')']) (.call name [])
        [(above + 1, p)]
  | applied {above p u v w text arguments calls} {name : String} :
      isFunctionName name.toList → Blanks u → Blanks v → Blanks w →
      ArgumentsCalls (above + 1) (p + (name.toList ++ u ++ '(' :: v).length) text arguments calls →
      ArgumentCalls above p (name.toList ++ u ++ '(' :: v ++ text ++ w ++ [')'])
        (.call name arguments) ((above + 1, p) :: calls)

inductive ArgumentsCalls : Nat → Nat → List Char → List Argument → List (Nat × Nat) → Prop where
  | last {above p text argument calls} : ArgumentCalls above p text argument calls →
      ArgumentsCalls above p text [argument] calls
  | more {above p text u v rest argument arguments calls others} :
      ArgumentCalls above p text argument calls → Blanks u → Blanks v →
      ArgumentsCalls above (p + (text ++ u ++ ',' :: v).length) rest arguments others →
      ArgumentsCalls above p (text ++ u ++ ',' :: v ++ rest) (argument :: arguments)
        (calls ++ others)

end

inductive ExpressionCalls : List Char → Expression → List (Nat × Nat) → Prop where
  | brackets {u v w x function members name arguments names calls} : Blanks u → Blanks v →
      ArgumentCalls 0 (u ++ '[' :: v).length function (.call name arguments) calls →
      MembersText members names → Blanks w → Blanks x →
      ExpressionCalls (u ++ '[' :: v ++ function ++ members ++ w ++ ']' :: x)
        ⟨⟨name, arguments⟩, names⟩ calls

/-! The lists of calls change nothing about what is derived. -/

mutual

theorem ArgumentCalls.argumentText : ∀ {x : Argument} {above p : Nat} {text : List Char}
    {calls : List (Nat × Nat)}, ArgumentCalls above p text x calls → ArgumentText text x
  | _, _, _, _, _, .leaf h _ => h
  | _, _, _, _, _, .bare hn hu hv => .call (.bare hn hu hv)
  | _, _, _, _, _, .applied hn hu hv hw inner =>
    .call (.applied hn hu hv hw inner.argumentsText)

theorem ArgumentsCalls.argumentsText : ∀ {xs : List Argument} {above p : Nat} {text : List Char}
    {calls : List (Nat × Nat)}, ArgumentsCalls above p text xs calls → ArgumentsText text xs
  | _, _, _, _, _, .last h => .last h.argumentText
  | _, _, _, _, _, .more h hu hv others => .more h.argumentText hu hv others.argumentsText

end

theorem ArgumentText.callText {text : List Char} {name : String} {arguments : List Argument}
    (h : ArgumentText text (.call name arguments)) : CallText text name arguments := by
  cases h with
  | call h => exact h

theorem ExpressionCalls.expressionText {text : List Char} {expression : Expression}
    {calls : List (Nat × Nat)} (h : ExpressionCalls text expression calls) :
    ExpressionText text expression := by
  obtain ⟨hu, hv, hc, hm, hw, hx⟩ := h
  exact .brackets hu hv hc.argumentText.callText hm hw hx

mutual

theorem exists_argumentCalls (above p : Nat) : ∀ {x : Argument} {text : List Char},
    ArgumentText text x → ∃ calls, ArgumentCalls above p text x calls
  | .call _ _, _, .call (.bare hn hu hv) => ⟨_, .bare hn hu hv⟩
  | .call _ _, _, .call (.applied hn hu hv hw inner) => by
    obtain ⟨calls, h⟩ := exists_argumentsCalls _ _ inner
    exact ⟨_, .applied hn hu hv hw h⟩
  | .string _, _, h => ⟨_, .leaf h rfl⟩
  | .number _, _, h => ⟨_, .leaf h rfl⟩
  | .boolean _, _, h => ⟨_, .leaf h rfl⟩

theorem exists_argumentsCalls (above p : Nat) : ∀ {xs : List Argument} {text : List Char},
    ArgumentsText text xs → ∃ calls, ArgumentsCalls above p text xs calls
  | [_], _, .last h => by
    obtain ⟨calls, h⟩ := exists_argumentCalls above p h
    exact ⟨calls, .last h⟩
  | _ :: _, _, .more h hu hv rest => by
    obtain ⟨calls, h⟩ := exists_argumentCalls above p h
    obtain ⟨others, rest⟩ := exists_argumentsCalls above _ rest
    exact ⟨calls ++ others, .more h hu hv rest⟩

end

theorem ExpressionText.exists_calls {text : List Char} {expression : Expression}
    (h : ExpressionText text expression) : ∃ calls, ExpressionCalls text expression calls := by
  obtain ⟨hu, hv, hc, hm, hw, hx⟩ := h
  obtain ⟨calls, hc⟩ := exists_argumentCalls 0 _ (.call hc)
  exact ⟨calls, .brackets hu hv hc hm hw hx⟩

/-! Every position of the list is that of a name, and no depth of it is beyond that of the tree. -/

/-- In a text that starts somewhere, the name of a call and its parenthesis stand at a position. -/
def NameStands (start : Nat) (text : List Char) (position : Nat) : Prop :=
  ∃ (a : List Char) (name : String) (u r : List Char),
    text = a ++ (name.toList ++ u ++ '(' :: r) ∧ isFunctionName name.toList ∧ Blanks u ∧
      position = start + a.length

theorem NameStands.within {p position : Nat} {v text : List Char}
    (h : NameStands (p + v.length) text position) (w : List Char) :
    NameStands p (v ++ text ++ w) position := by
  obtain ⟨a, name, u, r, rfl, hn, hu, hp⟩ := h
  refine ⟨v ++ a, name, u, r ++ w, by simp, hn, hu, ?_⟩
  rw [hp, Nat.add_assoc, ← List.length_append]

mutual

theorem ArgumentCalls.nameStands : ∀ {x : Argument} {above p : Nat} {text : List Char}
    {calls : List (Nat × Nat)}, ArgumentCalls above p text x calls →
    ∀ c ∈ calls, NameStands p text c.2
  | _, _, _, _, _, .leaf _ _, c, hc => absurd hc List.not_mem_nil
  | _, _, _, _, _, @ArgumentCalls.bare _ _ _ v _ hn hu _, c, hc => by
    obtain rfl := List.mem_singleton.mp hc
    exact ⟨[], _, _, v ++ [')'], by simp, hn, hu, rfl⟩
  | _, _, _, _, _, @ArgumentCalls.applied _ _ _ v w text _ _ _ hn hu _ _ inner, c, hc => by
    rcases List.mem_cons.mp hc with rfl | hc
    · exact ⟨[], _, _, v ++ text ++ w ++ [')'], by simp, hn, hu, rfl⟩
    · simpa using (inner.nameStands c hc).within (w ++ [')'])

theorem ArgumentsCalls.nameStands : ∀ {xs : List Argument} {above p : Nat} {text : List Char}
    {calls : List (Nat × Nat)}, ArgumentsCalls above p text xs calls →
    ∀ c ∈ calls, NameStands p text c.2
  | _, _, _, _, _, .last h, c, hc => h.nameStands c hc
  | _, _, _, _, _, @ArgumentsCalls.more _ _ _ u v rest _ _ _ _ h _ _ others, c, hc => by
    rcases List.mem_append.mp hc with hc | hc
    · simpa using (h.nameStands c hc).within (v := []) (u ++ ',' :: v ++ rest)
    · simpa using (others.nameStands c hc).within []

end

theorem ExpressionCalls.nameStands {text : List Char} {expression : Expression}
    {calls : List (Nat × Nat)} (h : ExpressionCalls text expression calls) :
    ∀ c ∈ calls, NameStands 0 text c.2 := by
  intro c hc
  cases h with
  | @brackets u v w x _ members _ _ _ _ _ _ hf _ _ _ =>
    have name := hf.nameStands c hc
    rw [← Nat.zero_add (u ++ '[' :: v).length] at name
    simpa using name.within (members ++ w ++ ']' :: x)

mutual

theorem ArgumentCalls.depth_le : ∀ {x : Argument} {above p : Nat} {text : List Char}
    {calls : List (Nat × Nat)}, ArgumentCalls above p text x calls →
    ∀ c ∈ calls, c.1 ≤ above + x.depth
  | _, _, _, _, _, .leaf _ _, c, hc => absurd hc List.not_mem_nil
  | _, _, _, _, _, .bare _ _ _, c, hc => by
    obtain rfl := List.mem_singleton.mp hc
    simp [Argument.depth, Argument.depthOfList]
  | _, _, _, _, _, .applied _ _ _ _ inner, c, hc => by
    simp only [Argument.depth]
    rcases List.mem_cons.mp hc with rfl | hc
    · simp only
      omega
    · have := inner.depth_le c hc
      omega

theorem ArgumentsCalls.depth_le : ∀ {xs : List Argument} {above p : Nat} {text : List Char}
    {calls : List (Nat × Nat)}, ArgumentsCalls above p text xs calls →
    ∀ c ∈ calls, c.1 ≤ above + Argument.depthOfList xs
  | _, _, _, _, _, .last h, c, hc => by
    have := h.depth_le c hc
    simp only [Argument.depthOfList]
    omega
  | _, _, _, _, _, .more h _ _ others, c, hc => by
    simp only [Argument.depthOfList]
    rcases List.mem_append.mp hc with hc | hc
    · have := h.depth_le c hc
      omega
    · have := others.depth_le c hc
      omega

end

end Grammar

open Grammar

def firstAt? (depth : Nat) (calls : List (Nat × Nat)) : Option Nat :=
  (calls.find? (·.1 == depth)).map (·.2)

theorem mem_of_firstAt? {depth position : Nat} {calls : List (Nat × Nat)}
    (h : firstAt? depth calls = some position) : (depth, position) ∈ calls := by
  obtain ⟨⟨found, q⟩, hc, rfl⟩ := Option.map_eq_some_iff.mp h
  obtain rfl : found = depth := by simpa using List.find?_some hc
  exact List.mem_of_find?_eq_some hc

def RefusedAt (limit : Nat) (calls : List (Nat × Nat)) (reader : Reader) : Prop :=
  ∃ q, firstAt? (limit + 1) calls = some q ∧ reader.run limit = .error (.nestingTooDeep q limit)

namespace RefusedAt

variable {limit : Nat} {before calls : List (Nat × Nat)} {reader next : Reader}

theorem append (h : RefusedAt limit calls reader) (after : List (Nat × Nat)) :
    RefusedAt limit (calls ++ after) reader := by
  obtain ⟨q, hq, run⟩ := h
  obtain ⟨c, hc, rfl⟩ := Option.map_eq_some_iff.mp hq
  exact ⟨c.2, by simp [firstAt?, hc], run⟩

theorem skip (h : RefusedAt limit calls reader) (fit : ∀ c ∈ before, c.1 ≤ limit) :
    RefusedAt limit (before ++ calls) reader := by
  obtain ⟨q, hq, run⟩ := h
  have none : before.find? (·.1 == limit + 1) = none := by
    rw [List.find?_eq_none]
    intro c hc
    have := fit c hc
    simp only [beq_iff_eq]
    omega
  exact ⟨q, by simpa [firstAt?, none] using hq, run⟩

theorem of_run_eq (h : RefusedAt limit calls next) (hr : reader.run limit = next.run limit) :
    RefusedAt limit calls reader := by
  obtain ⟨q, hq, run⟩ := h
  exact ⟨q, hq, hr.trans run⟩

end RefusedAt

theorem State.Moves.enters {state next : State} {name : String}
    (h : Moves state .functionName name next) :
    TokenKind.functionName ∈ state.expected ∧ next.depth = state.depth + 1 ∧
      (state.context = .topLevel ∨ state.context = .inArguments) := by
  cases h with
  | outerName => exact ⟨by simp [expected], rfl, .inl rfl⟩
  | innerName awaits =>
    cases awaits with
    | first => exact ⟨by simp [expected], rfl, .inr rfl⟩
    | next => exact ⟨by simp [expected], rfl, .inr rfl⟩

theorem run_tooDeep {limit p : Nat} {state next : State} {name : String} {w r : List Char}
    (moves : State.Moves state .functionName name next) (hw : Blanks w)
    (hn : isFunctionName name.toList) (apart : Apart r) (hd : limit ≤ state.depth) :
    Reader.run limit ⟨state, ⟨p, w ++ name.toList ++ r⟩⟩ =
      .error (.nestingTooDeep (p + w.length) limit) := by
  obtain ⟨expected, -, place⟩ := moves.enters
  have skips := hw.skips (Context.ne_inString place)
  have ends : ∀ c ∈ r.head?, ¬ state.context.absorbs .functionName c := by
    rw [absorbs_functionName]
    exact apart
  have pulls := Cursor.Pulls.token (p := p) skips (spells_functionName place hn) ends
  have fails : Reader.Fails limit ⟨state, ⟨p, w ++ name.toList ++ r⟩⟩
      (.nestingTooDeep (p + w.length) limit) :=
    @Reader.Fails.tooDeep limit _ _ ⟨.functionName, _, p + w.length⟩ pulls rfl expected hd
  exact Reader.run_eq_iff.mpr ⟨[], _, .here, Reader.step_eq_error_iff.mpr fails⟩

section

variable {limit p : Nat} {state : State} {calls : OpenCalls} {w text r : List Char}
  {places : List (Nat × Nat)}

/-- The call just below the limit is the first one too deep. -/
theorem refusedAt_name {name : String} (others : List (Nat × Nat))
    (moves : State.Moves state .functionName name (.callOpening calls)) (hw : Blanks w)
    (hn : isFunctionName name.toList) (apart : Apart r) (hd : state.depth = limit) :
    RefusedAt limit ((state.depth + 1, p + w.length) :: others)
      ⟨state, ⟨p, w ++ name.toList ++ r⟩⟩ :=
  ⟨p + w.length, by simp [firstAt?, hd], run_tooDeep moves hw hn apart (Nat.le_of_eq hd.symm)⟩

theorem refusedAt_call {name : String} {arguments : List Argument}
    (moves : State.Moves state .functionName name (.callOpening calls)) (hw : Blanks w)
    (h : ArgumentCalls state.depth (p + w.length) text (.call name arguments) places)
    (hs : state.depth ≤ limit) (hd : limit < state.depth + (1 + Argument.depthOfList arguments))
    (inner : ∀ {q : Nat} {v t s : List Char} {others : List (Nat × Nat)}, Blanks v →
      ArgumentsCalls calls.depth (q + v.length) t arguments others → calls.depth ≤ limit →
      limit < calls.depth + Argument.depthOfList arguments →
      RefusedAt limit others ⟨.firstArgument calls, ⟨q, v ++ t ++ s⟩⟩) :
    RefusedAt limit places ⟨state, ⟨p, w ++ text ++ r⟩⟩ := by
  obtain ⟨-, depth_eq, place⟩ := moves.enters
  change calls.depth = state.depth + 1 at depth_eq
  cases h with
  | leaf _ h0 => simp [Argument.depth] at h0
  | @bare _ _ u v _ hn hu hv =>
    simp only [Argument.depthOfList] at hd
    have apart : Apart (u ++ '(' :: (v ++ ')' :: r)) := apart_of_blanks hu (by decide)
    simpa using refusedAt_name (p := p) [] moves hw hn apart (by omega)
  | @applied _ _ u v x t _ others _ hn hu hv hx h =>
    have apart : Apart (u ++ '(' :: (v ++ (t ++ (x ++ ')' :: r)))) :=
      apart_of_blanks hu (by decide)
    -- Either this name is too deep already, or it is entered and `inner` finds one that is.
    by_cases hl : limit ≤ state.depth
    · simpa using refusedAt_name (p := p) others moves hw hn apart (by omega)
    · have enters : Leads limit state (w ++ name.toList)
          (u ++ ['('] ++ (v ++ t ++ (x ++ ')' :: r))) _ :=
        .name place hw hn (by simpa using apart) moves (by omega)
      have opens : Leads limit (.callOpening calls) (u ++ ['(']) (v ++ t ++ (x ++ ')' :: r)) _ :=
        .mark (.inl rfl) hu rfl .opening
      have position : p + (w ++ name.toList ++ (u ++ ['('])).length + v.length =
          p + w.length + (name.toList ++ u ++ '(' :: v).length := by
        simp
        omega
      rw [← depth_eq, ← position] at h
      have refused := inner (s := x ++ ')' :: r) hv h (by omega) (by omega)
      have own : ∀ c ∈ [(state.depth + 1, p + w.length)], c.1 ≤ limit := by
        simp only [List.mem_singleton, forall_eq]
        omega
      simpa using (refused.of_run_eq ((enters.trans opens).run_eq p)).skip own

end

mutual

theorem refusedAt_argument {limit : Nat} : ∀ (x : Argument) {state : State} {calls : OpenCalls}
    {w text r : List Char} {p : Nat} {places : List (Nat × Nat)}, State.Awaits state calls →
    Blanks w → ArgumentCalls calls.depth (p + w.length) text x places → calls.depth ≤ limit →
    limit < calls.depth + x.depth → RefusedAt limit places ⟨state, ⟨p, w ++ text ++ r⟩⟩
  | .call name arguments, state, calls, w, text, r, p, places, awaits, hw, h, hs, hd => by
    rw [← awaits.depth_eq] at h hs hd
    apply refusedAt_call (.innerName awaits) hw h hs hd
    intro q v t s others hv h hs hd
    exact refusedAt_arguments arguments .first hv h hs hd
  | .string _, _, _, _, _, _, _, _, _, _, _, hs, hd => by simp only [Argument.depth] at hd; omega
  | .number _, _, _, _, _, _, _, _, _, _, _, hs, hd => by simp only [Argument.depth] at hd; omega
  | .boolean _, _, _, _, _, _, _, _, _, _, _, hs, hd => by simp only [Argument.depth] at hd; omega

theorem refusedAt_arguments {limit : Nat} : ∀ (xs : List Argument) {state : State}
    {calls : OpenCalls} {w text r : List Char} {p : Nat} {places : List (Nat × Nat)},
    State.Awaits state calls → Blanks w →
    ArgumentsCalls calls.depth (p + w.length) text xs places → calls.depth ≤ limit →
    limit < calls.depth + Argument.depthOfList xs →
    RefusedAt limit places ⟨state, ⟨p, w ++ text ++ r⟩⟩
  | [x], _, _, _, _, _, _, _, awaits, hw, .last h, hs, hd => by
    simp only [Argument.depthOfList, Nat.max_zero] at hd
    exact refusedAt_argument x awaits hw h hs hd
  | x :: xs, state, calls, w, _, r, p, _, awaits, hw,
      @ArgumentsCalls.more _ _ text u v rest _ _ firsts others h hu hv hr, hs, hd => by
    simp only [Argument.depthOfList] at hd
    -- If the first argument fits, it is read whole and none of its calls is the one.
    by_cases hl : limit < calls.depth + x.depth
    · have refused := refusedAt_argument (r := u ++ ',' :: v ++ rest ++ r) x awaits hw h hs hl
      simpa using refused.append others
    · have apart : Apart (u ++ [','] ++ (v ++ rest ++ r)) := by
        simpa using apart_of_blanks (c := ',') (r := v ++ (rest ++ r)) hu (by decide)
      have first : Leads limit state (w ++ text) _ _ :=
        leads_argument x awaits hw h.argumentText apart (by omega)
      have comma : Leads limit (.afterArgument (calls.push x)) (u ++ [',']) (v ++ rest ++ r) _ :=
        .mark (.inl rfl) hu rfl .comma
      have position : p + (w ++ text ++ (u ++ [','])).length + v.length =
          p + w.length + (text ++ u ++ ',' :: v).length := by
        simp
        omega
      rw [← position] at hr
      have awaits : State.Awaits (.nextArgument (calls.push x)) (calls.push x) := .next
      have refused := refusedAt_arguments (r := r) xs awaits hv hr hs
        (show limit < calls.depth + _ by omega)
      have fits : ∀ c ∈ firsts, c.1 ≤ limit := by
        intro c hc
        have := h.depth_le c hc
        omega
      simpa using (refused.of_run_eq ((first.trans comma).run_eq p)).skip fits

end

/-- Beyond the limit the run ends at the first call one level too deep. The calls before it all fit,
so they are read. -/
theorem refusedAt_of_expressionCalls {limit : Nat} {source : String} {expression : Expression}
    {places : List (Nat × Nat)} (h : ExpressionCalls source.toList expression places)
    (hd : limit < expression.depth) : RefusedAt limit places (Reader.start source) := by
  generalize hs : source.toList = text at h
  cases h with
  | @brackets u v w x function members name arguments names _ hu hv hf hm hw hx =>
    have start : Reader.start source =
        ⟨.start, ⟨0, u ++ ['['] ++ (v ++ function ++ (members ++ w ++ ']' :: x))⟩⟩ := by
      simp [Reader.start, Cursor.start, hs]
    have opens : Leads limit .start (u ++ ['[']) (v ++ function ++ (members ++ w ++ ']' :: x)) _ :=
      .mark (.inl rfl) hu rfl .bracket
    have below : limit < 0 + (1 + Argument.depthOfList arguments) := by
      rw [Nat.zero_add]
      exact hd
    have position : 0 + (u ++ ['[']).length + v.length = (u ++ '[' :: v).length := by
      simp
      omega
    rw [← position] at hf
    have refused : RefusedAt limit places
        ⟨.outerName, ⟨0 + (u ++ ['[']).length, v ++ function ++ (members ++ w ++ ']' :: x)⟩⟩ := by
      apply refusedAt_call .outerName hv hf (Nat.zero_le _) below
      intro q v t s others hv h hs hd
      exact refusedAt_arguments arguments .first hv h hs hd
    rw [start]
    exact refused.of_run_eq (opens.run_eq 0)

end ConfigExpr
