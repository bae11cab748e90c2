import ConfigExpr.Proofs.Quotes
import ConfigExpr.Proofs.RoundTrip

/-! What a source is without its insignificant blanks. Of all texts of a tree one has no blank
outside string literals, `Expression.compact`. `ExpressionText.keeps` says that every other one is
this text with blanks put in, and `ExpressionText.compact` that the tree can be read back from it,
so no two trees have it in common. -/
namespace ConfigExpr

open Grammar

namespace Argument

mutual

def compact : Argument → List Char
  | .call name arguments => name.toList ++ '(' :: compactList arguments ++ [')']
  | .string text => quoteMark :: text.toList ++ [quoteMark]
  | .number digits => digits.toList
  | .boolean value => if value then trueSpelling else falseSpelling

def compactList : List Argument → List Char
  | [] => []
  | [x] => compact x
  | x :: y :: r => compact x ++ ',' :: compactList (y :: r)

end

end Argument

def compactMembers (names : List String) : List Char := names.flatMap fun name => '.' :: name.toList

def Expression.compact (expression : Expression) : List Char :=
  '[' :: expression.function.toArgument.compact ++ compactMembers expression.members ++ [']']

/-- Outside string literals, a text has these significant characters and opens no literal that it
does not close. -/
structure Keeps (text kept : List Char) : Prop where
  significant_eq : significant text = kept
  outside : endsInside false text = false

namespace Keeps

theorem append {a b a' b' : List Char} (ha : Keeps a a') (hb : Keeps b b') :
    Keeps (a ++ b) (a' ++ b') := by
  constructor
  · rw [significant, significantFrom_append, ha.outside]
    exact congr (congrArg _ ha.significant_eq) hb.significant_eq
  · rw [endsInside_append, ha.outside, hb.outside]

theorem nil : Keeps [] [] := ⟨rfl, rfl⟩

theorem blank {b : Char} (hb : isBlank b) : Keeps [b] [] := by
  have hq : b ≠ quoteMark := by
    rintro rfl
    exact absurd hb (by decide)
  constructor
  · simp [significant, significantFrom, hq, hb]
  · exact endsInside_of_not_mem (by simpa using hq.symm) false

theorem character {c : Char} (hq : c ≠ quoteMark) (hb : ¬ isBlank c) : Keeps [c] [c] := by
  constructor
  · simp [significant, significantFrom, hq, hb]
  · exact endsInside_of_not_mem (by simpa using hq.symm) false

theorem mark {c : Char} {kind : TokenKind} (h : punctuation? c = some kind)
    (hq : c ≠ quoteMark) : Keeps [c] [c] :=
  character hq (not_word_or_blank_of_punctuation? h).2

theorem blanks {w : List Char} (hw : Blanks w) : Keeps w [] := by
  induction w with
  | nil => exact nil
  | cons b w ih =>
    have first := blank (hw b List.mem_cons_self)
    have others := ih fun c hc => hw c (List.mem_cons_of_mem b hc)
    exact first.append others

theorem word {text : List Char} (h : ∀ c ∈ text, isWordChar c) : Keeps text text := by
  induction text with
  | nil => exact nil
  | cons c text ih =>
    have hc : isWordChar c := h c List.mem_cons_self
    have hq : c ≠ quoteMark := by
      rintro rfl
      exact absurd hc (by decide)
    have first := character hq (not_isBlank_of_isWordChar hc)
    exact first.append (ih fun x hx => h x (List.mem_cons_of_mem c hx))

/-- Between the quotes of a literal every blank counts. -/
theorem string {content : List Char} (h : isStringText content) :
    Keeps (quoteMark :: content ++ [quoteMark]) (quoteMark :: content ++ [quoteMark]) := by
  have hq : quoteMark ∉ content := by
    intro hq
    simpa using List.all_eq_true.mp h quoteMark hq
  have inside : significantFrom true content = content := by
    clear h
    induction content with
    | nil => rfl
    | cons c content ih =>
      simp only [List.mem_cons, not_or] at hq
      simp [significantFrom, Ne.symm hq.1, ih hq.2]
  constructor
  · rw [significant, List.cons_append, significantFrom, if_pos rfl, significantFrom_append,
      endsInside_of_not_mem hq, Bool.not_false, inside]
    rfl
  · rw [List.cons_append, endsInside_cons, if_pos rfl, endsInside_append,
      endsInside_of_not_mem hq]
    rfl

end Keeps

theorem keeps_opened {name : String} {u v : List Char} (hn : isFunctionName name.toList)
    (hu : Blanks u) (hv : Blanks v) :
    Keeps (name.toList ++ u ++ '(' :: v) (name.toList ++ ['(']) := by
  have word := Keeps.word (wordChars_of_isWord (isWord_of_isFunctionName hn))
  have opening : Keeps ['('] ['('] := .mark rfl (by decide)
  simpa using ((word.append (.blanks hu)).append opening).append (.blanks hv)

theorem keeps_closing : Keeps [')'] [')'] := .mark rfl (by decide)

namespace Grammar

mutual

theorem ArgumentText.keeps : ∀ {x : Argument} {text : List Char},
    ArgumentText text x → Keeps text x.compact
  | .call _ _, _, .call (.bare hn hu hv) => by
    have whole := (keeps_opened hn hu hv).append keeps_closing
    simpa [Argument.compact, Argument.compactList] using whole
  | .call _ _, _, .call (.applied hn hu hv hw inner) => by
    have filled := (keeps_opened hn hu hv).append inner.keeps
    have whole := (filled.append (.blanks hw)).append keeps_closing
    simpa [Argument.compact] using whole
  | .string _, _, .string h => .string h
  | .number _, _, .number h => .word (wordChars_of_isNumber h)
  | .boolean true, _, .trueWord => .word (List.all_eq_true.mp (by decide))
  | .boolean false, _, .falseWord => .word (List.all_eq_true.mp (by decide))

theorem ArgumentsText.keeps : ∀ {xs : List Argument} {text : List Char},
    ArgumentsText text xs → Keeps text (Argument.compactList xs)
  | [_], _, .last h => h.keeps
  | _ :: _ :: _, _, .more h hu hv rest => by
    have comma : Keeps [','] [','] := .mark rfl (by decide)
    have first := ((h.keeps.append (.blanks hu)).append comma).append (.blanks hv)
    simpa [Argument.compactList] using first.append rest.keeps

end

theorem MembersText.keeps {text : List Char} {names : List String} (h : MembersText text names) :
    Keeps text (compactMembers names) := by
  induction h with
  | none => exact .nil
  | more hu hv hn _ ih =>
    have dot : Keeps ['.'] ['.'] := .mark rfl (by decide)
    have name := Keeps.word (isMemberName_iff.mp hn).2
    have first := (((Keeps.blanks hu).append dot).append (.blanks hv)).append name
    simpa [compactMembers] using first.append ih

/-- The significant characters of a source are those of its tree. -/
theorem ExpressionText.keeps {text : List Char} {expression : Expression}
    (h : ExpressionText text expression) : Keeps text expression.compact := by
  obtain ⟨hu, hv, call, members, hw, hx⟩ := h
  have opening : Keeps ['['] ['['] := .mark rfl (by decide)
  have closing : Keeps [']'] [']'] := .mark rfl (by decide)
  have first := ((Keeps.blanks hu).append opening).append (.blanks hv)
  have inner := (first.append (ArgumentText.call call).keeps).append members.keeps
  have whole := ((inner.append (.blanks hw)).append closing).append (.blanks hx)
  simpa [Expression.compact, Call.toArgument] using whole

mutual

theorem ArgumentText.compact : ∀ {x : Argument} {text : List Char},
    ArgumentText text x → ArgumentText x.compact x
  | .call _ _, _, .call (.bare hn _ _) => by
    have bare := ArgumentText.call (.bare hn .nil .nil)
    simpa [Argument.compact, Argument.compactList] using bare
  | .call _ _, _, .call (.applied hn _ _ _ inner) => by
    have applied := ArgumentText.call (.applied hn .nil .nil .nil inner.compact)
    simpa [Argument.compact] using applied
  | .string _, _, .string h => .string h
  | .number _, _, .number h => .number h
  | .boolean true, _, .trueWord => .trueWord
  | .boolean false, _, .falseWord => .falseWord

theorem ArgumentsText.compact : ∀ {xs : List Argument} {text : List Char},
    ArgumentsText text xs → ArgumentsText (Argument.compactList xs) xs
  | [_], _, .last h => .last h.compact
  | _ :: _ :: _, _, .more h _ _ rest => by
    have more := ArgumentsText.more h.compact .nil .nil rest.compact
    simpa [Argument.compactList] using more

end

theorem MembersText.compact {text : List Char} {names : List String} (h : MembersText text names) :
    MembersText (compactMembers names) names := by
  induction h with
  | none => exact .none
  | more _ _ hn _ ih => simpa [compactMembers] using MembersText.more .nil .nil hn ih

/-- Without blanks the tokens of a source stand as far apart as they need to. -/
theorem ExpressionText.compact {text : List Char} {expression : Expression}
    (h : ExpressionText text expression) : ExpressionText expression.compact expression := by
  obtain ⟨-, -, call, members, -, -⟩ := h
  have function := (ArgumentText.call call).compact.callText
  have whole := ExpressionText.brackets .nil .nil function members.compact .nil .nil
  simpa [Expression.compact, Call.toArgument] using whole

end Grammar

/-- One text is the compact text of no two trees that can be read. -/
theorem eq_of_compact_eq {a b : Expression} {text text' : List Char} (ha : ExpressionText text a)
    (hb : ExpressionText text' b) (h : a.compact = b.compact) : a = b := by
  have first : ExpressionText (String.ofList a.compact).toList a := by
    rw [String.toList_ofList]
    exact ha.compact
  have second : ExpressionText (String.ofList a.compact).toList b := by
    rw [String.toList_ofList, h]
    exact hb.compact
  exact expressionText_unique first second

/-- A source and the canonical source of its tree differ in insignificant blanks only, and so do two
sources just when they have the same tree. -/
theorem parse_significant :
    (∀ (source : String) (limit : Nat) (expression : Expression),
      Expression.parse ⟨limit⟩ source = .ok expression →
      significant source.toList = significant expression.source.toList) ∧
    ∀ (source source' : String) (limit limit' : Nat) (expression expression' : Expression),
      Expression.parse ⟨limit⟩ source = .ok expression →
      Expression.parse ⟨limit'⟩ source' = .ok expression' →
      (expression = expression' ↔ significant source.toList = significant source'.toList) := by
  constructor
  · intro source limit expression h
    have text := expressionText_of_parse h
    have canonical := expressionText_source text.isValid
    rw [text.keeps.significant_eq, canonical.keeps.significant_eq]
  · intro source source' limit limit' expression expression' h h'
    have text := expressionText_of_parse h
    have text' := expressionText_of_parse h'
    rw [text.keeps.significant_eq, text'.keeps.significant_eq]
    constructor
    · rintro rfl
      rfl
    · exact eq_of_compact_eq text text'

/-- Blanks of all four kinds between the tokens, and one in a string literal that stays. -/
theorem parse_significant_blanks :
    Expression.parse ⟨2⟩ " [f\t(' a' ,g( ))\r\n. m]" =
      .ok ⟨⟨"f", [.string " a", .call "g" []]⟩, ["m"]⟩ ∧
    Expression.parse ⟨3⟩ "[f(' a', g()).m ]" =
      .ok ⟨⟨"f", [.string " a", .call "g" []]⟩, ["m"]⟩ ∧
    significant " [f\t(' a' ,g( ))\r\n. m]".toList = significant "[f(' a', g()).m ]".toList ∧
    significant "[f(' a', g()).m ]".toList = "[f(' a',g()).m]".toList := by
  have spaced : Expression.parse ⟨2⟩ " [f\t(' a' ,g( ))\r\n. m]" =
      .ok ⟨⟨"f", [.string " a", .call "g" []]⟩, ["m"]⟩ :=
    Reader.run_eq_of_runWithin? 20 rfl
  have dense : Expression.parse ⟨3⟩ "[f(' a', g()).m ]" =
      .ok ⟨⟨"f", [.string " a", .call "g" []]⟩, ["m"]⟩ :=
    Reader.run_eq_of_runWithin? 20 rfl
  have kept := parse_significant.1 _ _ _ dense
  have same := (parse_significant.2 _ _ _ _ _ _ spaced dense).mp rfl
  exact ⟨spaced, dense, same, kept.trans (by decide)⟩

end ConfigExpr
