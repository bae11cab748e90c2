import ConfigExpr.Proofs.CallPlaces

/-! The canonical source of a tree that was built through the checks reads as that tree. Beyond
the limit it is refused at the name of the first call that is too deep. -/
namespace ConfigExpr

open Grammar

inductive Argument.Built : Argument → Prop where
  | call {name arguments function} : (∀ x ∈ arguments, Built x) →
      Call.check name arguments = .ok function → Built function.toArgument
  | string {text content} : checkStringText text = .ok content → Built (.string content)
  | number {text digits} : checkNumber text = .ok digits → Built (.number digits)
  | boolean {value} : Built (.boolean value)

structure Expression.Built (expression : Expression) : Prop where
  function : expression.function.toArgument.Built
  members : ∀ name ∈ expression.members, ∃ text, checkMemberName text = .ok name

theorem Argument.areValid_iff {xs : List Argument} : areValid xs ↔ ∀ x ∈ xs, x.isValid := by
  induction xs with
  | nil => simp [areValid]
  | cons x r ih => simp [areValid, ih]

theorem Argument.Built.isValid {x : Argument} (h : x.Built) : x.isValid := by
  induction h with
  | @call name arguments function _ checked ih =>
    simp only [Call.check] at checked
    split at checked
    · next hn =>
      obtain rfl := Except.ok.inj checked
      simp only [Call.toArgument, Argument.isValid, Bool.and_eq_true]
      exact ⟨hn, areValid_iff.mpr ih⟩
    · simp at checked
  | string checked =>
    simp only [checkStringText] at checked
    split at checked
    · next ht => exact Except.ok.inj checked ▸ ht
    · simp at checked
  | number checked =>
    simp only [checkNumber] at checked
    split at checked
    · next ht => exact Except.ok.inj checked ▸ ht
    · simp at checked
  | boolean => rfl

mutual

theorem Argument.built_of_isValid : ∀ x : Argument, x.isValid → x.Built
  | .call name arguments, h => by
    simp only [Argument.isValid, Bool.and_eq_true] at h
    have checked : Call.check name arguments = .ok ⟨name, arguments⟩ := by
      simp [Call.check, h.1]
    exact .call (Argument.built_of_areValid arguments h.2) checked
  | .string text, h => .string (if_pos h)
  | .number digits, h => .number (if_pos h)
  | .boolean _, _ => .boolean

theorem Argument.built_of_areValid : ∀ xs : List Argument, areValid xs → ∀ x ∈ xs, x.Built
  | y :: r, h, x, hx => by
    simp only [areValid, Bool.and_eq_true] at h
    rcases List.mem_cons.mp hx with hy | hx
    · exact hy ▸ Argument.built_of_isValid y h.1
    · exact Argument.built_of_areValid r h.2 x hx

end

/-! What has a text could have been built by hand. -/

mutual

theorem Grammar.ArgumentText.isValid : ∀ {x : Argument} {text : List Char},
    ArgumentText text x → x.isValid
  | .call _ _, _, .call (.bare hn _ _) => by simp [Argument.isValid, Argument.areValid, hn]
  | .call _ _, _, .call (.applied hn _ _ _ inner) => by
    simp [Argument.isValid, hn, inner.areValid]
  | .string _, _, .string h => h
  | .number _, _, .number h => h
  | .boolean _, _, _ => rfl

theorem Grammar.ArgumentsText.areValid : ∀ {xs : List Argument} {text : List Char},
    ArgumentsText text xs → Argument.areValid xs
  | [_], _, .last h => by simp [Argument.areValid, h.isValid]
  | _ :: _, _, .more h _ _ rest => by simp [Argument.areValid, h.isValid, rest.areValid]

end

theorem Grammar.MembersText.isMemberName {text : List Char} {names : List String}
    (h : MembersText text names) : ∀ name ∈ names, isMemberName name.toList := by
  induction h with
  | none => simp
  | more _ _ hn _ ih => simpa [hn] using ih

theorem Grammar.ExpressionText.isValid {text : List Char} {expression : Expression}
    (h : ExpressionText text expression) : expression.isValid := by
  obtain ⟨-, -, call, members, -, -⟩ := h
  simp only [Expression.isValid, Call.isValid, Bool.and_eq_true, List.all_eq_true]
  exact ⟨(ArgumentText.call call).isValid, members.isMemberName⟩

theorem isMemberName_of_check {text name : String} (h : checkMemberName text = .ok name) :
    isMemberName name.toList := by
  simp only [checkMemberName] at h
  split at h
  · next hn => exact Except.ok.inj h ▸ hn
  · simp at h

theorem Expression.built_iff_isValid {expression : Expression} :
    expression.Built ↔ expression.isValid := by
  simp only [Expression.isValid, Call.isValid, Bool.and_eq_true, List.all_eq_true]
  constructor
  · intro h
    constructor
    · exact h.function.isValid
    · intro name hn
      obtain ⟨text, checked⟩ := h.members name hn
      exact isMemberName_of_check checked
  · rintro ⟨function, members⟩
    constructor
    · exact Argument.built_of_isValid _ function
    · intro name hn
      refine ⟨name, ?_⟩
      simp [checkMemberName, members name hn]

/-! The canonical source is one of the texts of its tree. -/

theorem isFunctionName_and_areValid {name : String} {arguments : List Argument}
    (h : (Argument.call name arguments).isValid) :
    isFunctionName name.toList ∧ Argument.areValid arguments := by
  simpa [Argument.isValid] using h

mutual

theorem argumentCalls_source (above p : Nat) : ∀ x : Argument, x.isValid →
    ArgumentCalls above p x.source.toList x (x.calls above p)
  | .call name [], h => by
    have bare : ArgumentCalls above p _ (.call name []) _ :=
      .bare (isFunctionName_and_areValid h).1 .nil .nil
    simpa [Argument.source, Argument.sourceList, Argument.calls, Argument.callsOfList] using bare
  | .call name (x :: r), h => by
    obtain ⟨hn, ha⟩ := isFunctionName_and_areValid h
    have inner := argumentsCalls_source (above + 1) (p + (name.toList ++ [] ++ ['(']).length)
      (x :: r) (by simp) ha
    have applied := ArgumentCalls.applied hn .nil .nil .nil inner
    simpa [Argument.source, Argument.calls, Nat.add_assoc, String.length_toList] using applied
  | .string text, h => by
    have quoted : ArgumentCalls above p (quoteMark :: text.toList ++ [quoteMark])
        (.string text) [] := .leaf (.string h) rfl
    simpa [Argument.source, Argument.calls, quoteMark] using quoted
  | .number digits, h => .leaf (.number h) rfl
  | .boolean true, _ => .leaf .trueWord rfl
  | .boolean false, _ => .leaf .falseWord rfl

theorem argumentsCalls_source (above p : Nat) : ∀ xs : List Argument, xs ≠ [] →
    Argument.areValid xs →
    ArgumentsCalls above p (Argument.sourceList xs).toList xs (Argument.callsOfList above p xs)
  | [], hne, _ => absurd rfl hne
  | [x], _, h => by
    have only := argumentCalls_source above p x (by simpa [Argument.areValid] using h)
    simpa [Argument.sourceList, Argument.callsOfList] using ArgumentsCalls.last only
  | x :: y :: r, _, h => by
    obtain ⟨hx, hr⟩ : x.isValid ∧ Argument.areValid (y :: r) := by
      simpa [Argument.areValid] using h
    have space : Blanks [' '] := by simp [Blanks, isBlank]
    have others := argumentsCalls_source above (p + (x.source.toList ++ [] ++ [',', ' ']).length)
      (y :: r) (by simp) hr
    have whole := ArgumentsCalls.more (argumentCalls_source above p x hx) .nil space others
    simpa [Argument.sourceList, Argument.callsOfList, Nat.add_assoc, String.length_toList]
      using whole

end

theorem membersText_source {names : List String}
    (h : ∀ name ∈ names, isMemberName name.toList) :
    MembersText (String.join (names.map ("." ++ ·))).toList names := by
  induction names with
  | nil => exact .none
  | cons name r ih =>
    have first := h name List.mem_cons_self
    have others := ih fun n hn => h n (List.mem_cons_of_mem name hn)
    simpa [String.join_cons] using MembersText.more .nil .nil first others

theorem expressionCalls_source {expression : Expression} (h : expression.isValid) :
    ExpressionCalls expression.source.toList expression expression.calls := by
  obtain ⟨⟨name, arguments⟩, names⟩ := expression
  simp only [Expression.isValid, Call.isValid, Bool.and_eq_true, List.all_eq_true] at h
  have call := argumentCalls_source 0 1 (.call name arguments) h.1
  have members := membersText_source h.2
  have whole := ExpressionCalls.brackets .nil .nil call members .nil .nil
  simpa [Expression.source, Expression.calls, Call.source, Call.toArgument] using whole

theorem expressionText_source {expression : Expression} (h : expression.isValid) :
    ExpressionText expression.source.toList expression :=
  (expressionCalls_source h).expressionText

theorem parse_source_of_isValid {limit : Nat} {expression : Expression}
    (valid : expression.isValid) (hd : expression.depth ≤ limit) :
    Expression.parse ⟨limit⟩ expression.source = .ok expression :=
  parse_of_expressionText (expressionText_source valid) hd

/-- The outermost call is below no other one and stands after the bracket. -/
theorem refusedAt_start {limit : Nat} {expression : Expression} (valid : expression.isValid)
    (hd : limit < expression.depth) :
    RefusedAt limit expression.calls (Reader.start expression.source) :=
  refusedAt_of_expressionCalls (expressionCalls_source valid) hd

/-- A tree built through the checks comes back from its canonical source, unless its calls nest
beyond the limit: then the first call one level too deep is reported at its name. -/
theorem parse_source (expression : Expression) (limit : Nat) (built : expression.Built) :
    (expression.depth ≤ limit →
      Expression.parse ⟨limit⟩ expression.source = .ok expression) ∧
    (limit < expression.depth →
      ∃ position, expression.firstCallAt? (limit + 1) = some position ∧
        Expression.parse ⟨limit⟩ expression.source = .error (.nestingTooDeep position limit)) := by
  have valid := Expression.built_iff_isValid.mp built
  constructor
  · intro hd
    exact parse_of_expressionText (expressionText_source valid) hd
  · intro hd
    exact refusedAt_start valid hd

/-- Siblings of different depth, a string of marks and a multibyte character, a name and members
that begin like other tokens. -/
def mixedTree : Expression :=
  ⟨⟨"f", [.call "g" [], .string "a] (日,.\n", .call "true-x" [.call "h" [], .number "07"],
    .boolean true]⟩, ["-1", "true"]⟩

theorem mixedTree_built : mixedTree.Built := Expression.built_iff_isValid.mpr (by decide)

theorem parse_source_mixedTree :
    Expression.parse ⟨3⟩ mixedTree.source = .ok mixedTree ∧
      Expression.parse ⟨2⟩ mixedTree.source = .error (.nestingTooDeep 27 2) := by
  refine ⟨(parse_source mixedTree 3 mixedTree_built).1 (by decide), ?_⟩
  obtain ⟨position, first, refused⟩ := (parse_source mixedTree 2 mixedTree_built).2 (by decide)
  obtain rfl : 27 = position := Option.some.inj (.trans (by decide) first)
  exact refused

end ConfigExpr
