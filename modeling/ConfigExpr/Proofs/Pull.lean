import ConfigExpr.Proofs.LexemeExtent
import ConfigExpr.Token.Session
import ConfigExpr.Tree.Source

/-! What one pull of a token does. The kind of a token says in every context what its text is like,
`Context.Spells.kind_unique` gives a text one kind at most in each context, and `Cursor.pulls_iff`
says how a pull moves through the text. -/
namespace ConfigExpr

def TokenKind.Fits : TokenKind → List Char → Prop
  | .leftBracket, text => text = ['[']
  | .rightBracket, text => text = [']']
  | .leftParen, text => text = ['(']
  | .rightParen, text => text = [')']
  | .functionName, text => isFunctionName text
  | .comma, text => text = [',']
  | .quote, text => text = [quoteMark]
  | .stringChars, text => text ≠ [] ∧ isStringText text
  | .number, text => isNumber text
  | .trueWord, text => text = trueSpelling
  | .falseWord, text => text = falseSpelling
  | .dot, text => text = ['.']
  | .memberName, text => isMemberName text
  | .endOfInput, _ => False

def Context.AtToken (context : Context) (text : List Char) : Prop :=
  context ≠ .inString → ∀ c ∈ text.head?, ¬ isBlank c

theorem fits_of_punctuation? {c : Char} {kind : TokenKind} (h : punctuation? c = some kind) :
    kind.Fits [c] := by
  unfold punctuation? at h
  split at h <;> simp only [Option.some.injEq, reduceCtorEq] at h <;> exact h ▸ rfl

theorem wordKind_mem (text : List Char) :
    wordKind text ∈ [TokenKind.functionName, .trueWord, .falseWord] := by
  unfold wordKind
  split
  · simp
  · split <;> simp

theorem fits_wordKind {text : List Char} (word : IsWord text) : (wordKind text).Fits text := by
  unfold wordKind
  split
  · next h => exact h
  · next h₁ =>
    split
    · next h => exact h
    · next h₂ =>
      obtain ⟨c, t, rfl, ha, ht⟩ := word
      simpa [TokenKind.Fits, isFunctionName, ha, h₁, h₂] using ht

namespace Context.Spells

variable {context : Context} {kind : TokenKind} {text : List Char}

theorem fits (h : context.Spells kind text) : kind.Fits text := by
  cases h with
  | punctuation _ mark => exact fits_of_punctuation? mark
  | word _ word => exact fits_wordKind word
  | number _ digits => exact digits
  | oddMember word =>
    refine isMemberName_iff.mpr ⟨?_, wordChars_of_isOddWord word⟩
    rintro rfl
    simp [IsOddWord] at word
  | member word => exact word
  | quote => rfl
  | stringChars nonempty inside => exact ⟨nonempty, inside⟩

/-- Outside string literals a token is a mark or made of word characters. -/
theorem mark_or_word (h : context.Spells kind text) (outside : context ≠ .inString) :
    (∃ c, text = [c] ∧ punctuation? c = some kind) ∨ text ≠ [] ∧ ∀ c ∈ text, isWordChar c := by
  cases h with
  | @punctuation _ c _ _ mark => exact .inl ⟨c, rfl, mark⟩
  | word _ word =>
    refine .inr ⟨?_, wordChars_of_isWord word⟩
    obtain ⟨c, t, rfl, -⟩ := word
    simp
  | number _ digits => exact .inr ⟨(isNumber_iff.mp digits).1, wordChars_of_isNumber digits⟩
  | oddMember word =>
    refine .inr ⟨?_, wordChars_of_isOddWord word⟩
    rintro rfl
    simp [IsOddWord] at word
  | member word => exact .inr (isMemberName_iff.mp word)
  | quote => exact absurd rfl outside
  | stringChars => exact absurd rfl outside

theorem lexeme?_eq (h : context.Spells kind text) : context.lexeme? text = some (kind, text) := by
  have found := (lexeme?_append_iff_of_spells (r := []) h).mpr (by simp)
  rwa [List.append_nil] at found

theorem ne_nil (h : context.Spells kind text) : text ≠ [] :=
  (lexeme?_text h.lexeme?_eq).1

theorem kind_ne_endOfInput (h : context.Spells kind text) : kind ≠ .endOfInput :=
  lexeme?_kind h.lexeme?_eq

theorem kind_unique {kind' : TokenKind} (h : context.Spells kind text)
    (h' : context.Spells kind' text) : kind = kind' :=
  (Prod.mk.inj (Option.some.inj (h.lexeme?_eq.symm.trans h'.lexeme?_eq))).1

theorem atToken (h : context.Spells kind text) (r : List Char) :
    context.AtToken (text ++ r) := by
  intro outside x hx
  rcases h.mark_or_word outside with ⟨c, rfl, mark⟩ | ⟨hne, chars⟩
  · obtain rfl : c = x := by simpa using hx
    exact (not_word_or_blank_of_punctuation? mark).2
  · obtain ⟨c, t, rfl⟩ := List.exists_cons_of_ne_nil hne
    obtain rfl : c = x := by simpa using hx
    exact not_isBlank_of_isWordChar (chars c List.mem_cons_self)

end Context.Spells

theorem spells_functionName {context : Context} {text : List Char}
    (place : context = .topLevel ∨ context = .inArguments) (h : isFunctionName text) :
    context.Spells .functionName text := by
  have word := isWord_of_isFunctionName h
  have kind : wordKind text = .functionName := by
    obtain ⟨c, t, rfl, -⟩ := word
    simp only [isFunctionName, Bool.and_eq_true, bne_iff_ne] at h
    simp [wordKind, h.1.2, h.2]
  exact kind ▸ .word place word

theorem isWord_trueSpelling : IsWord trueSpelling :=
  isWord_takeWhile (c := 't') (by decide) ['r', 'u', 'e']

theorem isWord_falseSpelling : IsWord falseSpelling :=
  isWord_takeWhile (c := 'f') (by decide) ['a', 'l', 's', 'e']

theorem spells_true {context : Context}
    (place : context = .topLevel ∨ context = .inArguments) :
    context.Spells .trueWord trueSpelling := by
  have kind : wordKind trueSpelling = .trueWord := by decide
  exact kind ▸ .word place isWord_trueSpelling

theorem spells_false {context : Context}
    (place : context = .topLevel ∨ context = .inArguments) :
    context.Spells .falseWord falseSpelling := by
  have kind : wordKind falseSpelling = .falseWord := by decide
  exact kind ▸ .word place isWord_falseSpelling

theorem spells_inString_iff {kind : TokenKind} {text : List Char} :
    Context.inString.Spells kind text ↔
      kind = .quote ∧ text = [quoteMark] ∨ kind = .stringChars ∧ text ≠ [] ∧ isStringText text := by
  constructor
  · intro h
    cases h with
    | punctuation place _ => simp at place
    | word place _ => simp at place
    | number place _ => simp at place
    | quote => exact .inl ⟨rfl, rfl⟩
    | stringChars nonempty inside => exact .inr ⟨rfl, nonempty, inside⟩
  · rintro (⟨rfl, rfl⟩ | ⟨rfl, nonempty, inside⟩)
    · exact .quote
    · exact .stringChars nonempty inside

theorem spells_afterDot_iff {kind : TokenKind} {text : List Char} :
    Context.afterDot.Spells kind text ↔ kind = .memberName ∧ isMemberName text := by
  constructor
  · intro h
    cases h with
    | punctuation place _ => simp at place
    | word place _ => simp at place
    | number place _ => simp at place
    | member word => exact ⟨rfl, word⟩
  · rintro ⟨rfl, word⟩
    exact .member word

/-! What one pull of a token does to the text. `Cursor.pulls_iff` says all of it once: the blanks
that are skipped, the spelling of the token, the character that ends it, and the ways to fail. -/

open Grammar (Blanks)

def Context.Skips (context : Context) (text : List Char) : Prop :=
  Blanks text ∧ (context = .inString → text = [])

theorem Grammar.Blanks.skips {context : Context} {text : List Char} (blanks : Blanks text)
    (outside : context ≠ .inString) : context.Skips text := by
  constructor
  · exact blanks
  · intro inside
    exact absurd inside outside

theorem Context.skips_nil (context : Context) : context.Skips [] :=
  ⟨by simp [Blanks], fun _ => rfl⟩

theorem Context.ne_inString {context : Context}
    (place : context = .topLevel ∨ context = .inArguments) : context ≠ .inString := by
  rcases place with rfl | rfl
  · simp
  · simp

inductive Cursor.Pulls (context : Context) : Cursor → Cursor → Except Found Token → Prop where
  | token {p w text r kind} : context.Skips w → context.Spells kind text →
      (∀ c ∈ r.head?, ¬ context.absorbs kind c) →
      Pulls context ⟨p, w ++ text ++ r⟩ ⟨p + w.length + text.length, r⟩
        (.ok ⟨kind, String.ofList text, p + w.length⟩)
  | endOfInput {p w} : context ≠ .inString → Blanks w →
      Pulls context ⟨p, w⟩ ⟨p + w.length, []⟩ (.ok ⟨.endOfInput, "", p + w.length⟩)
  | openString {p} : context = .inString → Pulls context ⟨p, []⟩ ⟨p, []⟩ (.error .endOfInput)
  | stray {p w c r} : context ≠ .inString → Blanks w → ¬ isBlank c →
      context.lexeme? (c :: r) = none →
      Pulls context ⟨p, w ++ c :: r⟩ ⟨p + w.length, c :: r⟩ (.error (.character c))

theorem skipBlanks_append {context : Context} {w r : List Char} (p : Nat)
    (skips : context.Skips w) (atToken : context.AtToken r) :
    Cursor.skipBlanks context ⟨p, w ++ r⟩ = ⟨p + w.length, r⟩ := by
  unfold Cursor.skipBlanks
  split
  · next h =>
    obtain rfl := skips.2 h
    rfl
  · next h =>
    rw [takeWhile_append_eq_left_iff.mpr ⟨skips.1, atToken h⟩]
    simp [Cursor.advance]

theorem exists_skips (context : Context) (text : List Char) :
    ∃ w r, text = w ++ r ∧ context.Skips w ∧ context.AtToken r := by
  by_cases h : context = .inString
  · exact ⟨[], text, rfl, context.skips_nil, fun hn => absurd h hn⟩
  · refine ⟨text.takeWhile isBlank, text.dropWhile isBlank, ?_, ⟨?_, fun hs => absurd hs h⟩, ?_⟩
    · exact List.takeWhile_append_dropWhile.symm
    · exact fun c hc => List.mem_takeWhile_imp hc
    · intro _ c hc hb
      have := List.head?_dropWhile_not isBlank text
      rw [Option.mem_def.mp hc] at this
      simp [hb] at this

theorem Cursor.Pulls.next_eq {context : Context} {cursor after : Cursor}
    {result : Except Found Token} (pulls : Pulls context cursor after result) :
    cursor.next context = (after, result) := by
  cases pulls with
  | @token p w text r kind skips spells ends =>
    obtain ⟨c, t, rfl⟩ := List.exists_cons_of_ne_nil spells.ne_nil
    have found := (lexeme?_append_iff_of_spells spells).mpr ends
    unfold next
    rw [List.append_assoc, skipBlanks_append p skips (spells.atToken r)]
    simp only [List.cons_append] at found ⊢
    rw [found]
    simp [advance]
  | @endOfInput p w outside blanks =>
    have skips : context.Skips w := blanks.skips outside
    have here := skipBlanks_append p skips (r := []) (by simp [Context.AtToken])
    rw [List.append_nil] at here
    unfold next
    rw [here]
    simp [outside]
  | openString inside =>
    subst inside
    rfl
  | @stray p w c r outside blanks hc none =>
    unfold next
    rw [skipBlanks_append p (blanks.skips outside) (by simp [Context.AtToken, hc])]
    simp [none]

theorem Cursor.exists_pulls (context : Context) (cursor : Cursor) :
    ∃ after result, Pulls context cursor after result := by
  obtain ⟨p, text⟩ := cursor
  obtain ⟨w, r, rfl, skips, atToken⟩ := exists_skips context text
  cases r with
  | nil =>
    rw [List.append_nil]
    by_cases h : context = .inString
    · rw [skips.2 h]
      exact ⟨_, _, .openString h⟩
    · exact ⟨_, _, .endOfInput h skips.1⟩
  | cons c r =>
    cases hl : context.lexeme? (c :: r) with
    | none =>
      have outside := ne_inString_of_lexeme?_eq_none hl
      exact ⟨_, _, .stray outside skips.1 (atToken outside c rfl) hl⟩
    | some found =>
      obtain ⟨kind, text⟩ := found
      obtain ⟨s, hs⟩ := (lexeme?_text hl).2
      rw [← hs] at hl ⊢
      obtain ⟨spells, ends⟩ := lexeme?_append_eq_some_iff.mp hl
      rw [← List.append_assoc]
      exact ⟨_, _, .token skips spells ends⟩

/-- The cases of `Cursor.Pulls` are all that a pull can do. -/
theorem Cursor.pulls_iff {context : Context} {cursor after : Cursor}
    {result : Except Found Token} :
    Pulls context cursor after result ↔ cursor.next context = (after, result) := by
  constructor
  · exact Pulls.next_eq
  · intro h
    obtain ⟨after', result', pulls⟩ := exists_pulls context cursor
    obtain ⟨rfl, rfl⟩ := Prod.mk.inj (pulls.next_eq.symm.trans h)
    exact pulls

namespace Cursor.Pulls

variable {context : Context} {cursor after : Cursor}

theorem token_start {token : Token} (h : Pulls context cursor after (.ok token)) :
    ∃ w r, cursor.rest = w ++ r ∧ context.Skips w ∧
      token.start = cursor.position + w.length := by
  cases h with
  | token skips _ _ => exact ⟨_, _, List.append_assoc .., skips, rfl⟩
  | endOfInput outside blanks =>
    exact ⟨_, [], (List.append_nil _).symm, blanks.skips outside, rfl⟩

theorem position_lt {token : Token} (h : Pulls context cursor after (.ok token))
    (hk : token.kind ≠ .endOfInput) : cursor.position < after.position := by
  cases h with
  | token _ spells _ =>
    have := List.length_pos_iff.mpr spells.ne_nil
    simp only
    omega
  | endOfInput => exact absurd rfl hk

theorem error_position {found : Found} (h : Pulls context cursor after (.error found)) :
    ∃ w r, cursor.rest = w ++ r ∧ context.Skips w ∧
      after.position = cursor.position + w.length := by
  cases h with
  | openString _ => exact ⟨[], [], rfl, context.skips_nil, rfl⟩
  | stray outside blanks _ _ => exact ⟨_, _, rfl, blanks.skips outside, rfl⟩

end Cursor.Pulls

end ConfigExpr
