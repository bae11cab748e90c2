import ConfigExpr.Proofs.NodeSpelling

/-! Which texts are expressions and which are literals. A text is an expression if it stands in
brackets, and every text can be written as a literal. `parse_trimText` says that no source of a tree
is taken for a literal once the white space around it is gone. -/
namespace ConfigExpr

open Grammar

/-- One bracket at the front, not two, and one at the end. -/
structure InBrackets (text : List Char) : Prop where
  opened : ['['] <+: text
  single : ¬ ['[', '['] <+: text
  closed : [']'] <:+ text

/-- How a literal is written: a bracket at its front is doubled. -/
def escapeLiteral (literal : String) : String :=
  if ['['] <+: literal.toList then "[" ++ literal else literal

theorem inBrackets_iff {text : List Char} :
    InBrackets text ↔ ∃ s, text = '[' :: s ∧ s.head? ≠ some '[' ∧ s.getLast? = some ']' := by
  constructor
  · rintro ⟨⟨s, rfl⟩, single, ⟨a, closed⟩⟩
    refine ⟨s, rfl, ?_, ?_⟩
    · intro h
      obtain ⟨r, rfl⟩ := List.head?_eq_some_iff.mp h
      exact single ⟨r, rfl⟩
    · cases a with
      | nil => simp at closed
      | cons c a =>
        obtain ⟨-, rfl⟩ := List.cons.inj closed
        exact List.getLast?_concat
  · rintro ⟨s, rfl, single, closed⟩
    obtain ⟨a, rfl⟩ := List.getLast?_eq_some_iff.mp closed
    refine ⟨⟨_, rfl⟩, ?_, ⟨'[' :: a, rfl⟩⟩
    rintro ⟨r, h⟩
    rw [← (List.cons.inj h).2] at single
    exact single rfl

theorem isExpressionText_iff {text : String} :
    isExpressionText text = true ↔ InBrackets text.toList := by
  rw [inBrackets_iff, isExpressionText]
  split
  · next r h => simp [h]
  · next r single h =>
    rw [h]
    cases r with
    | nil => simp
    | cons c r =>
      have hc : c ≠ '[' := by
        rintro rfl
        exact single r rfl
      simp [hc]
  · next unopened =>
    simp only [Bool.false_eq_true, false_iff]
    rintro ⟨s, h, -⟩
    exact unopened s h

namespace ConfigValue

variable {limit : Nat} {text : String}

theorem parse_of_inBrackets (h : InBrackets text.toList) :
    ConfigValue.parse ⟨limit⟩ text = (Expression.parse ⟨limit⟩ text).map .expression := by
  unfold ConfigValue.parse
  split
  · next r doubled => exact absurd ⟨r, doubled.symm⟩ h.single
  · rw [if_pos (isExpressionText_iff.mpr h)]

theorem parse_of_doubled {r : List Char} (h : text.toList = '[' :: '[' :: r) :
    ConfigValue.parse ⟨limit⟩ text = .ok (.literal (String.ofList ('[' :: r))) := by
  simp only [ConfigValue.parse, h]

theorem parse_of_plain (h : ¬ InBrackets text.toList) (single : ¬ ['[', '['] <+: text.toList) :
    ConfigValue.parse ⟨limit⟩ text = .ok (.literal text) := by
  unfold ConfigValue.parse
  split
  · next r doubled => exact absurd ⟨r, doubled.symm⟩ single
  · rw [if_neg fun expression => h (isExpressionText_iff.mp expression)]

/-- A text that is no expression is a literal, which loses the first of two brackets. -/
theorem exists_parse_eq_literal (h : ¬ InBrackets text.toList) :
    ∃ literal, ConfigValue.parse ⟨limit⟩ text = .ok (.literal literal) ∧
      (['[', '['] <+: text.toList ∧ text = "[" ++ literal ∨
        ¬ ['[', '['] <+: text.toList ∧ literal = text) := by
  by_cases doubled : ['[', '['] <+: text.toList
  · have first := doubled
    obtain ⟨r, hr⟩ := doubled
    refine ⟨String.ofList ('[' :: r), parse_of_doubled hr.symm, .inl ⟨first, ?_⟩⟩
    apply String.toList_injective
    simp [← hr]
  · exact ⟨text, parse_of_plain h doubled, .inr ⟨doubled, rfl⟩⟩

theorem parse_escapeLiteral (limit : Nat) (literal : String) :
    ConfigValue.parse ⟨limit⟩ (escapeLiteral literal) = .ok (.literal literal) := by
  unfold escapeLiteral
  split
  · next opened =>
    obtain ⟨r, hr⟩ := opened
    have doubled : ("[" ++ literal).toList = '[' :: '[' :: r := by simp [← hr]
    rw [parse_of_doubled doubled]
    have whole : literal = String.ofList ('[' :: r) := by
      apply String.toList_injective
      simp [← hr]
    rw [← whole]
  · next plain =>
    refine parse_of_plain (fun h => plain h.opened) fun doubled => plain ?_
    exact (List.prefix_append ['['] ['[']).trans doubled

end ConfigValue

/-! White space around the brackets of an expression. -/

theorem trimChars_brackets {u s x : List Char} (hu : Blanks u) (hx : Blanks x) :
    trimChars (u ++ '[' :: s ++ ']' :: x) = '[' :: s ++ [']'] := by
  have white {w : List Char} (hw : Blanks w) : ∀ c ∈ w, isWhiteSpace c :=
    fun c hc => isWhiteSpace_of_isBlank (hw c hc)
  have opening : ¬ isWhiteSpace '[' := by decide
  have closing : ¬ isWhiteSpace ']' := by decide
  have front : (u ++ '[' :: s ++ ']' :: x).dropWhile isWhiteSpace = '[' :: s ++ ']' :: x := by
    rw [List.append_assoc, List.dropWhile_append_of_pos (white hu), List.cons_append,
      List.dropWhile_cons_of_neg opening]
  have back : (x.reverse ++ ']' :: ('[' :: s).reverse).dropWhile isWhiteSpace =
      ']' :: ('[' :: s).reverse := by
    rw [List.dropWhile_append_of_pos fun c hc => white hx c (List.mem_reverse.mp hc),
      List.dropWhile_cons_of_neg closing]
  have reversed : ('[' :: s ++ ']' :: x).reverse = x.reverse ++ ']' :: ('[' :: s).reverse := by
    simp
  rw [trimChars, front, reversed, back]
  simp

theorem Grammar.CallText.exists_letter {text : List Char} {name : String}
    {arguments : List Argument} (h : CallText text name arguments) :
    ∃ c s, text = c :: s ∧ c.isAlpha := by
  have named (r : List Char) (hn : isFunctionName name.toList) :
      ∃ c s, name.toList ++ r = c :: s ∧ c.isAlpha := by
    obtain ⟨c, t, ht, letter, -⟩ := isWord_of_isFunctionName hn
    exact ⟨c, t ++ r, by rw [ht]; rfl, letter⟩
  cases h with
  | bare hn _ _ => simpa using named _ hn
  | applied hn _ _ _ _ => simpa using named _ hn

theorem Grammar.ExpressionText.exists_brackets {text : List Char} {expression : Expression}
    (h : ExpressionText text expression) :
    ∃ u s x, text = u ++ '[' :: s ++ ']' :: x ∧ Blanks u ∧ Blanks x ∧ s.head? ≠ some '[' ∧
      ExpressionText ('[' :: s ++ [']']) expression := by
  obtain ⟨hu, hv, call, members, hw, hx⟩ := h
  rename_i u v w x t m name arguments names
  have inner : ExpressionText ([] ++ '[' :: v ++ t ++ m ++ w ++ [']']) _ :=
    .brackets .nil hv call members hw .nil
  refine ⟨u, v ++ t ++ m ++ w, x, by simp, hu, hx, ?_, by simpa using inner⟩
  intro doubled
  cases v with
  | nil =>
    obtain ⟨c, s, rfl, letter⟩ := call.exists_letter
    obtain rfl : c = '[' := by simpa using doubled
    exact absurd letter (by decide)
  | cons b v =>
    obtain rfl : b = '[' := by simpa using doubled
    exact absurd (hv '[' List.mem_cons_self) (by decide)

/-- Without the white space around it, the source of a tree stands in brackets. -/
theorem ConfigValue.parse_trimText {limit : Nat} {text : String} {expression : Expression}
    (h : Expression.parse ⟨limit⟩ text = .ok expression) :
    ConfigValue.parse ⟨limit⟩ (trimText text) = .ok (.expression expression) := by
  obtain ⟨derived, hd⟩ := parse_eq_ok_iff.mp h
  obtain ⟨u, s, x, ht, hu, hx, single, inner⟩ := derived.exists_brackets
  have trimmed : (trimText text).toList = '[' :: s ++ [']'] := by
    rw [trimText, String.toList_ofList, ht, trimChars_brackets hu hx]
  have brackets : InBrackets (trimText text).toList := by
    refine inBrackets_iff.mpr ⟨s ++ [']'], trimmed, ?_, by simp⟩
    cases s with
    | nil => simp
    | cons c s => simpa using single
  have parsed : Expression.parse ⟨limit⟩ (trimText text) = .ok expression :=
    parse_of_expressionText (trimmed ▸ inner) hd
  rw [parse_of_inBrackets brackets, parsed]
  rfl

theorem trimText_source_append (expression : Expression) {blanks : String}
    (h : Blanks blanks.toList) : trimText (expression.source ++ blanks) = expression.source := by
  let inner := expression.function.source.toList ++
    (String.join (expression.members.map ("." ++ ·))).toList
  have brackets : expression.source.toList = '[' :: inner ++ [']'] := by
    simp [Expression.source, inner]
  apply String.toList_injective
  rw [trimText, String.toList_ofList, String.toList_append, brackets]
  simpa using trimChars_brackets (u := []) (s := inner) .nil h

theorem trimText_source (expression : Expression) :
    trimText expression.source = expression.source := by
  simpa using @trimText_source_append expression "" .nil

theorem ConfigValue.parse_canonical {limit : Nat} {expression : Expression}
    (valid : expression.isValid) (hd : expression.depth ≤ limit) :
    ConfigValue.parse ⟨limit⟩ expression.source = .ok (.expression expression) := by
  simpa only [trimText_source] using parse_trimText (parse_source_of_isValid valid hd)

/-- A text is either an expression, and then its value is what the expression reader says, or a
literal without an error. Every literal can be written, and no expression is taken for one. -/
theorem parse_classifies (limit : Nat) :
    (∀ text : String,
      (isExpressionText text = true ↔ InBrackets text.toList) ∧
      (isExpressionText text = true →
        ConfigValue.parse ⟨limit⟩ text = (Expression.parse ⟨limit⟩ text).map .expression) ∧
      (isExpressionText text = false →
        ∃ literal, ConfigValue.parse ⟨limit⟩ text = .ok (.literal literal) ∧
          (['[', '['] <+: text.toList ∧ text = "[" ++ literal ∨
            ¬ ['[', '['] <+: text.toList ∧ literal = text))) ∧
    (∀ literal : String,
      ConfigValue.parse ⟨limit⟩ (escapeLiteral literal) = .ok (.literal literal)) ∧
    (∀ (text : String) (expression : Expression),
      Expression.parse ⟨limit⟩ text = .ok expression →
      ConfigValue.parse ⟨limit⟩ (trimText text) = .ok (.expression expression)) ∧
    ∀ expression : Expression, expression.Made → expression.depth ≤ limit →
      ConfigValue.parse ⟨limit⟩ expression.source = .ok (.expression expression) := by
  refine ⟨fun text => ⟨isExpressionText_iff, ?_, ?_⟩, ?_, ?_, ?_⟩
  · intro expression
    exact ConfigValue.parse_of_inBrackets (isExpressionText_iff.mp expression)
  · intro literal
    refine ConfigValue.exists_parse_eq_literal fun brackets => ?_
    simp [isExpressionText_iff.mpr brackets] at literal
  · exact ConfigValue.parse_escapeLiteral limit
  · intro text expression parsed
    exact ConfigValue.parse_trimText parsed
  · intro expression made hd
    exact ConfigValue.parse_canonical made.isValid hd

/-- Two brackets that a third one keeps, brackets that hold no expression, and an expression with
white space around its brackets and next to them. -/
theorem parse_classifies_brackets :
    ConfigValue.parse ⟨1⟩ "[[[f()]" = .ok (.literal "[[f()]") ∧
    ConfigValue.parse ⟨1⟩ "[]" =
      .error (.unexpectedToken 1 .rightBracket "]" [.functionName]) ∧
    (∃ literal, ConfigValue.parse ⟨1⟩ "[f() " = .ok (.literal literal) ∧ literal = "[f() ") ∧
    ConfigValue.parse ⟨1⟩ "[ f(' \n')\t]" =
      .ok (.expression ⟨⟨"f", [.string " \n"]⟩, []⟩) ∧
    ConfigValue.parse ⟨3⟩ mixedTree.source = .ok (.expression mixedTree) := by
  have parsed : Expression.parse ⟨1⟩ " [ f(' \n')\t]\r\n" =
      .ok ⟨⟨"f", [.string " \n"]⟩, []⟩ :=
    Reader.run_eq_of_runWithin? 20 rfl
  have refused : Expression.parse ⟨1⟩ "[]" =
      .error (.unexpectedToken 1 .rightBracket "]" [.functionName]) :=
    Reader.run_eq_of_runWithin? 20 rfl
  have trimmed : trimText " [ f(' \n')\t]\r\n" = "[ f(' \n')\t]" := by decide
  obtain ⟨texts, literals, sources, -⟩ := parse_classifies 1
  refine ⟨literals "[[f()]", ?_, ?_, ?_, ?_⟩
  · rw [(texts "[]").2.1 (by decide), refused]
    rfl
  · obtain ⟨literal, value, doubled | single⟩ := (texts "[f() ").2.2 (by decide)
    · exact absurd doubled.1 (by decide)
    · exact ⟨literal, value, single.2⟩
  · exact trimmed ▸ sources _ _ parsed
  · exact (parse_classifies 3).2.2.2 mixedTree (.built mixedTree_built) (by decide)

end ConfigExpr
