import ConfigExpr.Proofs.Tiling

/-! The scan against the rules of its context. The scan looks at one character after another and
never at a whole rule. `lexeme?_eq_some_iff_longest` and `lexeme?_eq_none_iff` say that it still
finds the longest first part that some rule spells, and finds none only where there is none. -/
namespace ConfigExpr

/-- The longest first part of a text that a rule of the context spells, and what is left. -/
structure Context.Longest (context : Context) (text : List Char) (kind : TokenKind)
    (lexeme rest : List Char) : Prop where
  spells : context.Spells kind lexeme
  nonempty : lexeme ≠ []
  whole : text = lexeme ++ rest
  longest : ∀ kind' lexeme', context.Spells kind' lexeme' → lexeme' <+: text →
    lexeme'.length ≤ lexeme.length

/-- What the rules of a context answer to a text with so many characters of the source before it.
There is nothing to skip in front of the text. -/
inductive Context.Answers (context : Context) (source : String) (place : Nat) :
    List Char → Session → Except ParseError Token → Prop where
  | token {text kind lexeme rest} (found : context.Longest text kind lexeme rest) :
      Answers context source place text ⟨source, ⟨place + lexeme.length, rest⟩⟩
        (.ok ⟨kind, String.ofList lexeme, place⟩)
  | endOfInput (outside : context ≠ .inString) :
      Answers context source place [] ⟨source, ⟨place, []⟩⟩ (.ok ⟨.endOfInput, "", place⟩)
  | cutOff (inside : context = .inString) :
      Answers context source place [] ⟨source, ⟨place, []⟩⟩
        (.error (.lexical place .endOfInput context.starters))
  | noRule {c rest} (none : ∀ kind lexeme, context.Spells kind lexeme → ¬ lexeme <+: c :: rest) :
      Answers context source place (c :: rest) ⟨source, ⟨place, c :: rest⟩⟩
        (.error (.lexical place (.character c) context.starters))

variable {context : Context} {kind kind' : TokenKind} {lexeme lexeme' rest text : List Char}

/-- A longer spelling goes on with the character that ends the lexeme, so the scan of it alone
ends there too. -/
theorem length_le_of_lexeme? (found : context.lexeme? (lexeme ++ rest) = some (kind, lexeme))
    (spells : context.Spells kind' lexeme') (first : lexeme' <+: lexeme ++ rest) :
    lexeme'.length ≤ lexeme.length := by
  rcases Nat.le_total lexeme'.length lexeme.length with shorter | longer
  · exact shorter
  · obtain ⟨more, rfl⟩ :=
      List.prefix_of_prefix_length_le (List.prefix_append lexeme rest) first longer
    obtain ⟨left, rfl⟩ := (List.prefix_append_right_inj lexeme).mp first
    obtain ⟨own, ends⟩ := lexeme?_append_eq_some_iff.mp found
    have ends_here : ∀ c ∈ more.head?, ¬ context.absorbs kind c := by
      intro c hc
      exact ends c (by rw [List.head?_append, Option.mem_def.mp hc]; rfl)
    have alone := lexeme?_append_eq_some_iff.mpr ⟨own, ends_here⟩
    have same : lexeme ++ more = lexeme :=
      (Prod.mk.inj (Option.some.inj (spells.lexeme?_eq.symm.trans alone))).2
    exact Nat.le_of_eq (congrArg List.length same)

theorem Context.Longest.of_lexeme? (found : context.lexeme? text = some (kind, lexeme)) :
    ∃ rest, context.Longest text kind lexeme rest := by
  obtain ⟨nonempty, rest, rfl⟩ := lexeme?_text found
  refine ⟨rest, spells_of_lexeme? found, nonempty, rfl, ?_⟩
  intro kind' lexeme' spells first
  exact length_le_of_lexeme? found spells first

theorem Context.Longest.unique {rest' : List Char} (h : context.Longest text kind lexeme rest)
    (h' : context.Longest text kind' lexeme' rest') : kind = kind' ∧ lexeme = lexeme' := by
  have first : lexeme <+: text := ⟨rest, h.whole.symm⟩
  have first' : lexeme' <+: text := ⟨rest', h'.whole.symm⟩
  have shorter := h'.longest kind lexeme h.spells first
  have longer := h.longest kind' lexeme' h'.spells first'
  obtain rfl : lexeme = lexeme' :=
    (List.prefix_of_prefix_length_le first first' shorter).eq_of_length_le longer
  exact ⟨h.spells.kind_unique h'.spells, rfl⟩

theorem lexeme?_eq_none_iff :
    context.lexeme? text = none ↔
      ∀ kind lexeme, context.Spells kind lexeme → ¬ lexeme <+: text := by
  constructor
  · rintro none kind lexeme spells ⟨rest, rfl⟩
    obtain ⟨c, r, rfl⟩ := List.exists_cons_of_ne_nil spells.ne_nil
    have nothing := lexeme?_cons_eq_none none r
    rw [spells.lexeme?_eq] at nothing
    contradiction
  · intro none
    cases found : context.lexeme? text with
    | none => rfl
    | some answer =>
      obtain ⟨kind, lexeme⟩ := answer
      exact absurd (lexeme?_text found).2 (none kind lexeme (spells_of_lexeme? found))

theorem lexeme?_eq_some_iff_longest :
    context.lexeme? text = some (kind, lexeme) ↔ ∃ rest, context.Longest text kind lexeme rest := by
  constructor
  · exact Context.Longest.of_lexeme?
  · rintro ⟨rest, longest⟩
    cases found : context.lexeme? text with
    | none =>
      exact absurd ⟨rest, longest.whole.symm⟩
        (lexeme?_eq_none_iff.mp found kind lexeme longest.spells)
    | some answer =>
      obtain ⟨kind', lexeme'⟩ := answer
      obtain ⟨rest', own⟩ := Context.Longest.of_lexeme? found
      obtain ⟨rfl, rfl⟩ := own.unique longest
      rfl

/-! What a call can answer, and that it does. -/

theorem Context.exists_answers (context : Context) (source : String) (place : Nat)
    (text : List Char) : ∃ after result, context.Answers source place text after result := by
  cases text with
  | nil =>
    by_cases inside : context = .inString
    · exact ⟨_, _, .cutOff inside⟩
    · exact ⟨_, _, .endOfInput inside⟩
  | cons c rest =>
    cases found : context.lexeme? (c :: rest) with
    | none => exact ⟨_, _, .noRule (lexeme?_eq_none_iff.mp found)⟩
    | some answer =>
      obtain ⟨kind, lexeme⟩ := answer
      obtain ⟨left, longest⟩ := lexeme?_eq_some_iff_longest.mp found
      exact ⟨_, _, .token longest⟩

namespace Session

variable {session after : Session} {result : Except ParseError Token} {skipped : List Char}

theorem next_of_answers (whole : session.cursor.rest = skipped ++ text)
    (skips : context.Skips skipped) (atToken : context.AtToken text)
    (answers : context.Answers session.source (session.cursor.position + skipped.length) text after
      result) :
    session.next context = (after, result) := by
  obtain ⟨source, place, characters⟩ := session
  obtain rfl : characters = skipped ++ text := whole
  cases answers with
  | token found =>
    obtain rfl := found.whole
    have ends := (lexeme?_append_eq_some_iff.mp (lexeme?_eq_some_iff_longest.mpr ⟨_, found⟩)).2
    rw [next_eq_ok_iff, ← List.append_assoc]
    exact ⟨rfl, .token skips found.spells ends⟩
  | endOfInput outside =>
    rw [next_eq_ok_iff, List.append_nil]
    exact ⟨rfl, .endOfInput outside skips.1⟩
  | cutOff inside =>
    obtain rfl := skips.2 inside
    exact next_eq_error_iff.mpr ⟨rfl, _, .openString inside, rfl⟩
  | @noRule c rest none =>
    have nothing := lexeme?_eq_none_iff.mpr none
    have outside := ne_inString_of_lexeme?_eq_none nothing
    exact next_eq_error_iff.mpr
      ⟨rfl, _, .stray outside skips.1 (atToken outside c rfl) nothing, rfl⟩

theorem next_iff_answers (whole : session.cursor.rest = skipped ++ text)
    (skips : context.Skips skipped) (atToken : context.AtToken text) :
    session.next context = (after, result) ↔
      context.Answers session.source (session.cursor.position + skipped.length) text after
        result := by
  constructor
  · intro h
    obtain ⟨after', result', answers⟩ := context.exists_answers session.source
      (session.cursor.position + skipped.length) text
    obtain ⟨rfl, rfl⟩ := Prod.mk.inj ((next_of_answers whole skips atToken answers).symm.trans h)
    exact answers
  · exact next_of_answers whole skips atToken

theorem exists_next_of_spells (spells : context.Spells kind lexeme) :
    ∃ source after token, (start source).next context = (after, .ok token) ∧
      token.kind = kind := by
  obtain ⟨rest, longest⟩ := lexeme?_eq_some_iff_longest.mp spells.lexeme?_eq
  have whole : (start (String.ofList lexeme)).cursor.rest = [] ++ lexeme := String.toList_ofList
  have atToken : context.AtToken lexeme := List.append_nil lexeme ▸ spells.atToken []
  exact ⟨_, _, _, next_of_answers whole context.skips_nil atToken (.token longest), rfl⟩

end Session

/-! The kinds that a context lists. -/

theorem mem_punctuationKinds_iff :
    kind ∈ punctuationKinds ↔ ∃ c, punctuation? c = some kind := by
  constructor
  · simp only [punctuationKinds, List.mem_cons, List.not_mem_nil, or_false]
    rintro (rfl | rfl | rfl | rfl | rfl | rfl | rfl)
    · exact ⟨'[', rfl⟩
    · exact ⟨']', rfl⟩
    · exact ⟨'(', rfl⟩
    · exact ⟨')', rfl⟩
    · exact ⟨',', rfl⟩
    · exact ⟨quoteMark, rfl⟩
    · exact ⟨'.', rfl⟩
  · rintro ⟨c, mark⟩
    unfold punctuation? at mark
    split at mark <;> simp only [Option.some.injEq, reduceCtorEq] at mark <;> subst mark <;> decide

theorem mem_starters_of_spells (spells : context.Spells kind lexeme) :
    kind ∈ context.starters := by
  cases spells with
  | punctuation place mark =>
    have listed := mem_punctuationKinds_iff.mpr ⟨_, mark⟩
    rcases place with rfl | rfl
    · exact List.mem_append_left _ listed
    · exact List.mem_append_left _ listed
  | word place word =>
    have listed : wordKind lexeme = .functionName ∨ wordKind lexeme = .trueWord ∨
        wordKind lexeme = .falseWord := by simpa using wordKind_mem lexeme
    rcases place with rfl | rfl
    · rcases listed with h | h | h <;> rw [h] <;> decide
    · rcases listed with h | h | h <;> rw [h] <;> decide
  | number place digits =>
    rcases place with rfl | rfl
    · decide
    · decide
  | oddMember word => decide
  | member word => decide
  | quote => decide
  | stringChars nonempty inside => decide

theorem endOfInput_mem_starters_iff : .endOfInput ∈ context.starters ↔ context ≠ .inString := by
  cases context <;> decide

theorem Cursor.Pulls.kind_mem_starters {cursor after : Cursor} {token : Token}
    (pulls : Pulls context cursor after (.ok token)) : token.kind ∈ context.starters := by
  cases pulls with
  | token _ spells _ => exact mem_starters_of_spells spells
  | endOfInput outside _ => exact endOfInput_mem_starters_iff.mpr outside

def sharedKinds : List TokenKind :=
  punctuationKinds ++ [.functionName, .trueWord, .falseWord, .number]

theorem exists_spells_of_mem_sharedKinds (place : context = .topLevel ∨ context = .inArguments)
    (mem : kind ∈ sharedKinds) : ∃ lexeme, context.Spells kind lexeme := by
  rcases List.mem_append.mp mem with mark | word
  · obtain ⟨c, mark⟩ := mem_punctuationKinds_iff.mp mark
    exact ⟨[c], .punctuation place mark⟩
  · simp only [List.mem_cons, List.not_mem_nil, or_false] at word
    rcases word with rfl | rfl | rfl | rfl
    · exact ⟨['f'], spells_functionName place (by decide)⟩
    · exact ⟨trueSpelling, spells_true place⟩
    · exact ⟨falseSpelling, spells_false place⟩
    · exact ⟨['0'], .number place (by decide)⟩

theorem exists_spells_of_mem_starters (mem : kind ∈ context.starters) (hk : kind ≠ .endOfInput) :
    ∃ lexeme, context.Spells kind lexeme := by
  cases context with
  | topLevel =>
    by_cases member : kind = .memberName
    · exact ⟨['_'], member ▸ .oddMember (.inl ⟨'_', [], rfl, .inr rfl, by simp⟩)⟩
    · refine exists_spells_of_mem_sharedKinds (.inl rfl) ?_
      simpa [Context.starters, sharedKinds, hk, member] using mem
  | inArguments =>
    refine exists_spells_of_mem_sharedKinds (.inr rfl) ?_
    simpa [Context.starters, sharedKinds, hk] using mem
  | afterDot =>
    obtain rfl : kind = .memberName := by simpa [Context.starters, hk] using mem
    exact ⟨['_'], .member (by decide)⟩
  | inString =>
    have inside : kind = .stringChars ∨ kind = .quote := by simpa [Context.starters] using mem
    rcases inside with rfl | rfl
    · exact ⟨['_'], .stringChars (by simp) (by decide)⟩
    · exact ⟨[quoteMark], .quote⟩

/-- A context lists a kind exactly when some session gets a token of that kind under it. -/
theorem mem_starters_iff :
    kind ∈ context.starters ↔ ∃ source contexts after token,
      ((Session.start source).afterCalls contexts).next context = (after, .ok token) ∧
        token.kind = kind := by
  constructor
  · intro mem
    by_cases hk : kind = .endOfInput
    · have outside := endOfInput_mem_starters_iff.mp (hk ▸ mem)
      have whole : (Session.start "").cursor.rest = [] ++ [] := rfl
      have given := Session.next_of_answers whole context.skips_nil (by simp [Context.AtToken])
        (.endOfInput outside)
      exact ⟨"", [], _, _, given, hk.symm⟩
    · obtain ⟨lexeme, spells⟩ := exists_spells_of_mem_starters mem hk
      obtain ⟨source, after, token, given, same⟩ := Session.exists_next_of_spells spells
      exact ⟨source, [], after, token, given, same⟩
  · rintro ⟨source, contexts, after, token, given, rfl⟩
    exact (Session.next_eq_ok_iff.mp given).2.kind_mem_starters

/-- Every call skips the blanks that its context skips and then answers as the rules of the context
say, at any cursor. The kinds that an error lists are exactly those that calls under the context
give. -/
theorem next_longest_match (context : Context) (session : Session) :
    (∃ skipped text, session.cursor.rest = skipped ++ text ∧ context.Skips skipped ∧
      context.AtToken text ∧ ∀ after result, session.next context = (after, result) ↔
        context.Answers session.source (session.cursor.position + skipped.length) text after
          result) ∧
    ∀ kind, kind ∈ context.starters ↔ ∃ source contexts after token,
      ((Session.start source).afterCalls contexts).next context = (after, .ok token) ∧
        token.kind = kind := by
  obtain ⟨skipped, text, whole, skips, atToken⟩ := exists_skips context session.cursor.rest
  constructor
  · exact ⟨skipped, text, whole, skips, atToken, fun _ _ =>
      Session.next_iff_answers whole skips atToken⟩
  · exact fun _ => mem_starters_iff

/-- A digit run before a letter and before `-`, and `-` behind a word. -/
example :
    let first (context : Context) (source : String) := ((Session.start source).next context).2
    first .topLevel "12ab" = .ok ⟨.memberName, "12ab", 0⟩ ∧
      first .topLevel "12-ab" = .ok ⟨.number, "12", 0⟩ ∧
      first .topLevel "12a-b" = .ok ⟨.memberName, "12a-b", 0⟩ ∧
      first .inArguments "12ab" = .ok ⟨.number, "12", 0⟩ ∧
      first .inArguments " true-" = .ok ⟨.functionName, "true-", 1⟩ :=
  ⟨rfl, rfl, rfl, rfl, rfl⟩

end ConfigExpr
