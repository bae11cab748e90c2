import ConfigExpr.Token.Lexeme
import Mathlib.Data.List.TakeWhile

/-! The spellings of each kind of token, context by context, apart from the reading of them.
`spells_of_lexeme?` says that a lexeme has a spelling of its kind. -/
namespace ConfigExpr

def IsWord (text : List Char) : Prop :=
  ∃ c r, text = c :: r ∧ c.isAlpha ∧ ∀ x ∈ r, isWordChar x

/-- Word characters after `-` or `_`, or after a digit run and a letter or `_`. -/
def IsOddWord (text : List Char) : Prop :=
  (∃ c r, text = c :: r ∧ (c = '-' ∨ c = '_') ∧ ∀ x ∈ r, isWordChar x) ∨
    ∃ digits c r, text = digits ++ c :: r ∧ isNumber digits ∧ (c.isAlpha ∨ c = '_') ∧
      ∀ x ∈ r, isWordChar x

inductive Context.Spells : Context → TokenKind → List Char → Prop where
  | punctuation {context c kind} (place : context = .topLevel ∨ context = .inArguments)
      (mark : punctuation? c = some kind) : Spells context kind [c]
  | word {context text} (place : context = .topLevel ∨ context = .inArguments)
      (word : IsWord text) : Spells context (wordKind text) text
  | number {context text} (place : context = .topLevel ∨ context = .inArguments)
      (digits : isNumber text) : Spells context .number text
  | oddMember {text} (word : IsOddWord text) : Spells .topLevel .memberName text
  | member {text} (word : isMemberName text) : Spells .afterDot .memberName text
  | quote : Spells .inString .quote [quoteMark]
  | stringChars {text} (nonempty : text ≠ []) (inside : isStringText text) :
      Spells .inString .stringChars text

theorem isWord_takeWhile {c : Char} (h : c.isAlpha) (r : List Char) :
    IsWord (c :: r.takeWhile isWordChar) :=
  ⟨c, _, rfl, h, fun _ hx => List.mem_takeWhile_imp hx⟩

theorem isNumber_takeWhile {c : Char} (h : c.isDigit) (r : List Char) :
    isNumber (c :: r.takeWhile Char.isDigit) := by
  simp [isNumber, h]

theorem isWordChar_of_isDigit {c : Char} (h : c.isDigit) : isWordChar c := by
  simp [isWordChar, Char.isAlphanum, h]

theorem isOddWord_takeWhile {c : Char} {r : List Char} (h : startsMemberName (c :: r)) :
    IsOddWord (c :: r.takeWhile isWordChar) := by
  simp only [startsMemberName, Bool.or_eq_true, Bool.and_eq_true, beq_iff_eq] at h
  rcases h with h | ⟨hd, hn⟩
  · exact .inl ⟨c, _, rfl, h, fun _ hx => List.mem_takeWhile_imp hx⟩
  · right
    cases hr : r.dropWhile Char.isDigit with
    | nil => simp [hr] at hn
    | cons n s =>
      rw [hr] at hn
      simp only [List.head?_cons, Option.any_some, Bool.or_eq_true, beq_iff_eq] at hn
      have digits : ∀ x ∈ r.takeWhile Char.isDigit, x.isDigit :=
        fun _ hx => List.mem_takeWhile_imp hx
      have hw : isWordChar n := by
        rcases hn with hn | rfl
        · simp [isWordChar, Char.isAlphanum, hn]
        · decide
      refine ⟨c :: r.takeWhile Char.isDigit, n, s.takeWhile isWordChar, ?_,
        isNumber_takeWhile hd r, hn, fun _ hx => List.mem_takeWhile_imp hx⟩
      rw [List.cons_append, ← List.takeWhile_cons_of_pos hw,
        ← List.takeWhile_append_of_pos fun x hx => isWordChar_of_isDigit (digits x hx), ← hr,
        List.takeWhile_append_dropWhile]

theorem spells_of_sharedLexeme? {context : Context} {kind : TokenKind} {r text : List Char}
    (place : context = .topLevel ∨ context = .inArguments)
    (h : sharedLexeme? r = some (kind, text)) : context.Spells kind text := by
  cases r with
  | nil => simp [sharedLexeme?] at h
  | cons c r =>
    simp only [sharedLexeme?] at h
    split at h
    · next k hk =>
      obtain ⟨rfl, rfl⟩ : k = kind ∧ [c] = text := by simpa using h
      exact .punctuation place hk
    · split at h
      · next ha =>
        obtain ⟨rfl, rfl⟩ := by simpa using h
        exact .word place (isWord_takeWhile ha r)
      · split at h
        · next hd =>
          obtain ⟨rfl, rfl⟩ := by simpa using h
          exact .number place (isNumber_takeWhile hd r)
        · simp at h

theorem spells_of_lexeme? {context : Context} {kind : TokenKind} {r text : List Char}
    (h : context.lexeme? r = some (kind, text)) : context.Spells kind text := by
  cases r with
  | nil => simp [Context.lexeme?] at h
  | cons c r =>
    cases context with
    | topLevel =>
      simp only [Context.lexeme?] at h
      split at h
      · next hm =>
        obtain ⟨rfl, rfl⟩ := by simpa using h
        exact .oddMember (isOddWord_takeWhile hm)
      · exact spells_of_sharedLexeme? (.inl rfl) h
    | inArguments =>
      simp only [Context.lexeme?] at h
      exact spells_of_sharedLexeme? (.inr rfl) h
    | afterDot =>
      simp only [Context.lexeme?] at h
      split at h
      · next hc =>
        obtain ⟨rfl, rfl⟩ := by simpa using h
        exact .member (by simp [isMemberName, hc])
      · simp at h
    | inString =>
      simp only [Context.lexeme?] at h
      split at h
      · next hc =>
        obtain ⟨rfl, rfl⟩ := by simpa using h
        exact hc ▸ .quote
      · next hc =>
        obtain ⟨rfl, rfl⟩ := by simpa using h
        exact .stringChars (by simp) (by simp [isStringText, hc])

end ConfigExpr
