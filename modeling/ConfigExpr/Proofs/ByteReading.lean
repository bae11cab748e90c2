import ConfigExpr.Proofs.Pull
import ConfigExpr.Token.ByteCursor

/-! The cursor in bytes against the one in characters. In front of a character no reading fails, and
the rules give what `Context.lexeme?` gives for the rest of the text. `Session.byteCursor_next?`
says that the two cursors answer alike, under every context. -/
namespace ConfigExpr

namespace ByteCursor

variable {here : ByteCursor} {before text r : List Char} {context : Context} {c : Char}

theorem Between.byteOffset_eq (stands : here.Between before r) :
    byteOffset here.source.toList before.length = here.position := by
  rw [stands.source, byteOffset_append, stands.position]

def taken (here : ByteCursor) (kind : TokenKind) (text : List Char) :
    ByteCursor × Except ParseError ByteToken :=
  (here.past text, .ok ⟨kind, String.ofList text, here.position, (here.past text).position⟩)

def settled (here : ByteCursor) (error : ParseError) :
    Option (TokenKind × List Char) → ByteCursor × Except ParseError ByteToken
  | some (kind, text) => here.taken kind text
  | none => (here, .error error)

theorem token?_eq (stands : here.Between before (text ++ r)) (kind : TokenKind) :
    (here.past text).token? kind here.position = some (here.taken kind text) := by
  simp only [token?, stands.textFrom?_eq, Option.bind_eq_bind, Option.bind_some]
  rfl

theorem refusal?_eq (stands : here.Between before r) (context : Context) (found : Found) :
    here.refusal? context found =
      some (here, .error (.lexical before.length found context.starters)) := by
  simp only [refusal?, stands.charOffset?_eq, Option.bind_eq_bind, Option.bind_some]
  rfl

theorem between_eaten (stands : here.Between before r) (p : Char → Bool) :
    here.Between before (r.takeWhile p ++ r.dropWhile p) := by
  rwa [List.takeWhile_append_dropWhile]

theorem eatWhile?_token? (stands : here.Between before (c :: r)) {p : Char → Bool} (first : p c)
    (kind : TokenKind) :
    (do (← here.eatWhile? p).token? kind here.position) =
      some (here.taken kind (c :: r.takeWhile p)) := by
  rw [eatWhile?_eq stands, Option.bind_eq_bind, Option.bind_some,
    ← List.takeWhile_cons_of_pos first]
  exact token?_eq (between_eaten stands p) kind

section

variable (stands : here.Between before (c :: r))

include stands

theorem rule?_punctuation {kind : TokenKind} (shared : context ≠ .afterDot)
    (mark : punctuation? c = some kind) : here.rule? context c = some (here.taken kind [c]) := by
  simp only [rule?, if_neg shared, mark, ← past_singleton]
  exact token?_eq stands kind

theorem rule?_letter (shared : context ≠ .afterDot) (letter : c.isAlpha) :
    here.rule? context c = some (here.taken (wordKind (c :: r.takeWhile isWordChar))
      (c :: r.takeWhile isWordChar)) := by
  have word := isWordChar_of_isAlpha letter
  have eaten := between_eaten stands isWordChar
  simp only [rule?, if_neg shared, punctuation?_eq_none word, if_pos letter, eatWhile?_eq stands,
    eaten.textFrom?_eq, Option.bind_eq_bind, Option.bind_some, String.toList_ofList,
    ← List.takeWhile_cons_of_pos word]
  exact token?_eq eaten _

theorem rule?_digit (shared : context ≠ .afterDot) (digit : c.isDigit)
    (ends : context = .topLevel → ¬ startsMemberName (c :: r)) :
    here.rule? context c = some (here.taken .number (c :: r.takeWhile Char.isDigit)) := by
  have word := isWordChar_of_isDigit digit
  have letter : ¬ c.isAlpha := fun h => not_isDigit_of_isAlpha h digit
  have eaten := between_eaten stands Char.isDigit
  have behind : ¬ (context = .topLevel ∧
      ((c :: r).dropWhile Char.isDigit).head?.any fun n => n.isAlpha || n == '_') := by
    rintro ⟨top, more⟩
    rw [List.dropWhile_cons_of_pos digit] at more
    exact ends top (by simp [startsMemberName, digit, more])
  simp only [rule?, if_neg shared, punctuation?_eq_none word, if_neg letter, if_pos digit,
    eatWhile?_eq stands, eaten.past.rest?_eq, Option.bind_eq_bind, Option.bind_some, if_neg behind,
    ← List.takeWhile_cons_of_pos digit]
  exact token?_eq eaten _

/-- Behind a digit run the word goes on, and the two pieces make up one token. -/
theorem rule?_member (starts : startsMemberName (c :: r)) :
    here.rule? .topLevel c = some (here.taken .memberName (c :: r.takeWhile isWordChar)) := by
  have shared : Context.topLevel ≠ .afterDot := by decide
  rcases startsMemberName_iff.mp starts with mark | ⟨digit, n, more, word_n⟩
  · have word : isWordChar c := by rcases mark with rfl | rfl <;> rfl
    have other : ¬ c.isAlpha ∧ ¬ c.isDigit := by rcases mark with rfl | rfl <;> decide
    simp only [rule?, if_neg shared, punctuation?_eq_none word, if_neg other.1, if_neg other.2,
      if_pos mark, true_and]
    exact eatWhile?_token? stands word _
  · have word := isWordChar_of_isDigit digit
    have letter : ¬ c.isAlpha := fun h => not_isDigit_of_isAlpha h digit
    have eaten := between_eaten stands Char.isDigit
    have behind : (((c :: r).dropWhile Char.isDigit).head?.any fun n => n.isAlpha || n == '_') := by
      rw [List.dropWhile_cons_of_pos digit, Option.any_eq_true]
      exact ⟨n, more, by simpa using word_n⟩
    have pieces : (c :: r).takeWhile Char.isDigit ++
        ((c :: r).dropWhile Char.isDigit).takeWhile isWordChar = (c :: r).takeWhile isWordChar := by
      rw [← List.takeWhile_append_of_pos fun x hx =>
        isWordChar_of_isDigit (List.mem_takeWhile_imp hx), List.takeWhile_append_dropWhile]
    simp only [rule?, if_neg shared, punctuation?_eq_none word, if_neg letter, if_pos digit,
      eatWhile?_eq stands, eaten.past.rest?_eq, eatWhile?_eq eaten.past, Option.bind_eq_bind,
      Option.bind_some, true_and, if_pos behind, past_append, pieces,
      ← List.takeWhile_cons_of_pos word]
    exact token?_eq (between_eaten stands isWordChar) _

theorem rule?_stray (shared : context ≠ .afterDot) (none : sharedLexeme? (c :: r) = none)
    (plain : context = .topLevel → ¬ startsMemberName (c :: r)) :
    here.rule? context c =
      some (here, .error (.lexical before.length (.character c) context.starters)) := by
  obtain ⟨mark, letter, digit⟩ := sharedLexeme?_eq_none_iff.mp none
  have other : ¬ (context = .topLevel ∧ (c = '-' ∨ c = '_')) := by
    rintro ⟨top, sign⟩
    exact plain top (startsMemberName_iff.mpr (.inl sign))
  simp only [rule?, if_neg shared, mark, if_neg letter, if_neg digit, if_neg other]
  exact refusal?_eq stands _ _

theorem rule?_shared (shared : context ≠ .afterDot)
    (plain : context = .topLevel → ¬ startsMemberName (c :: r)) :
    here.rule? context c = some (here.settled
      (.lexical before.length (.character c) context.starters) (sharedLexeme? (c :: r))) := by
  cases mark : punctuation? c with
  | some kind =>
    have found : sharedLexeme? (c :: r) = some (kind, [c]) := by simp only [sharedLexeme?, mark]
    rw [found]
    exact rule?_punctuation stands shared mark
  | none =>
    by_cases letter : c.isAlpha
    · have found : sharedLexeme? (c :: r) =
          some (wordKind (c :: r.takeWhile isWordChar), c :: r.takeWhile isWordChar) := by
        simp only [sharedLexeme?, mark, if_pos letter]
      rw [found]
      exact rule?_letter stands shared letter
    · by_cases digit : c.isDigit
      · have found : sharedLexeme? (c :: r) = some (.number, c :: r.takeWhile Char.isDigit) := by
          simp only [sharedLexeme?, mark, if_neg letter, if_pos digit]
        rw [found]
        exact rule?_digit stands shared digit plain
      · have found : sharedLexeme? (c :: r) = none :=
          sharedLexeme?_eq_none_iff.mpr ⟨mark, letter, digit⟩
        rw [found]
        exact rule?_stray stands shared found plain

theorem rule?_eq (outside : context ≠ .inString) :
    here.rule? context c = some (here.settled
      (.lexical before.length (.character c) context.starters) (context.lexeme? (c :: r))) := by
  cases context with
  | topLevel =>
    rw [Context.lexeme?]
    by_cases starts : startsMemberName (c :: r)
    · rw [if_pos starts]
      exact rule?_member stands starts
    · rw [if_neg starts]
      exact rule?_shared stands (by decide) fun _ => starts
  | inArguments => exact rule?_shared stands (by decide) fun h => by contradiction
  | afterDot =>
    rw [rule?, if_pos rfl, Context.lexeme?]
    by_cases word : isWordChar c
    · rw [if_pos word, if_pos word]
      exact eatWhile?_token? stands word _
    · rw [if_neg word, if_neg word]
      exact refusal?_eq stands _ _
  | inString => exact absurd rfl outside

end

theorem string?_eq (stands : here.Between before (c :: r)) (error : ParseError) :
    here.string? = some (here.settled error (Context.inString.lexeme? (c :: r))) := by
  simp only [string?, stands.rest?_eq, Option.bind_eq_bind, Option.bind_some, Context.lexeme?]
  by_cases quote : c = quoteMark
  · have byte : (⟨here.source, here.position + 1⟩ : ByteCursor) = here.past [c] := by
      rw [past_singleton, quote]
      rfl
    rw [if_pos quote, if_pos quote, byte]
    exact token?_eq stands _
  · have inside : (c != quoteMark) = true := by simpa using quote
    rw [if_neg quote, if_neg quote]
    exact eatWhile?_token? stands (p := (· != quoteMark)) inside _

theorem string?_nil (stands : here.Between before []) : here.string? =
    some (here, .error (.lexical before.length .endOfInput Context.inString.starters)) := by
  simp only [string?, stands.rest?_eq, Option.bind_eq_bind, Option.bind_some]
  exact refusal?_eq stands _ _

theorem next?_outside (stands : here.Between before (text ++ r)) (outside : context ≠ .inString)
    (skips : context.Skips text) (atToken : context.AtToken r) :
    here.next? context =
      match r with
      | [] => some ((here.past text).taken .endOfInput [])
      | c :: _ => (here.past text).rule? context c := by
  have blanks := takeWhile_append_eq_left_iff.mpr ⟨skips.1, atToken outside⟩
  simp only [next?, if_neg outside, eatWhile?_eq stands, blanks, stands.past.rest?_eq,
    Option.bind_eq_bind, Option.bind_some]
  cases r with
  | nil => exact @token?_eq (here.past text) _ [] [] stands.past .endOfInput
  | cons c r => rfl

theorem next?_cons (stands : here.Between before (text ++ c :: r)) (skips : context.Skips text)
    (atToken : context.AtToken (c :: r)) :
    here.next? context = some ((here.past text).settled
      (.lexical (before ++ text).length (.character c) context.starters)
      (context.lexeme? (c :: r))) := by
  by_cases inside : context = .inString
  · obtain rfl := skips.2 inside
    subst inside
    exact string?_eq stands _
  · rw [next?_outside stands inside skips atToken]
    exact rule?_eq stands.past inside

/-- In bytes and in characters a token has the same place. -/
theorem taken_eq (stands : here.Between before (text ++ r)) (kind : TokenKind) :
    here.taken kind text =
      (⟨here.source, byteOffset here.source.toList (before.length + text.length)⟩,
        .ok ⟨kind, String.ofList text, byteOffset here.source.toList before.length,
          byteOffset here.source.toList before.length + (String.ofList text).utf8ByteSize⟩) := by
  have behind := stands.past.byteOffset_eq
  rw [List.length_append] at behind
  rw [stands.byteOffset_eq]
  exact congrArg (fun position => ((⟨here.source, position⟩ : ByteCursor), _)) behind.symm

end ByteCursor

open ByteCursor in
/-- The hypotheses say that the rest of the text is what the position leaves of the source. -/
theorem Session.byteCursor_next? {session : Session} {before : List Char}
    (whole : session.source.toList = before ++ session.cursor.rest)
    (counted : session.cursor.position = before.length) (context : Context) :
    session.byteCursor.next? context =
      some ((session.next context).1.byteCursor, (session.next context).2.map session.inBytes) := by
  obtain ⟨source, cursor⟩ := session
  obtain ⟨after, result, pulls⟩ := Cursor.exists_pulls context cursor
  have next := pulls.next_eq
  have stands : Between ⟨source, byteOffset source.toList before.length⟩ before cursor.rest :=
    ⟨whole, by rw [whole]; exact byteOffset_append before cursor.rest⟩
  cases pulls with
  | @token p w text r kind skips spells ends =>
    obtain rfl : p = before.length := counted
    obtain ⟨c, t, rfl⟩ := List.exists_cons_of_ne_nil spells.ne_nil
    have found := (lexeme?_append_iff_of_spells spells).mpr ends
    rw [List.append_assoc] at stands
    have there := stands.past
    rw [List.cons_append] at found stands
    have read := next?_cons stands skips (spells.atToken r)
    rw [found, settled, taken_eq there, List.length_append] at read
    rw [Session.next, next]
    exact read
  | @endOfInput p w outside blanks =>
    obtain rfl : p = before.length := counted
    rw [← List.append_nil w] at stands
    have read := next?_outside stands outside (blanks.skips outside) (by simp [Context.AtToken])
    rw [Session.next, next]
    refine read.trans ?_
    rw [taken_eq stands.past, List.length_append]
    rfl
  | @openString p inside =>
    obtain rfl : p = before.length := counted
    subst inside
    rw [Session.next, next]
    exact string?_nil stands
  | @stray p w c r outside blanks hc none =>
    obtain rfl : p = before.length := counted
    have there := stands.past.byteOffset_eq
    have read := next?_cons stands (blanks.skips outside) (by simp [Context.AtToken, hc])
    rw [none, settled, List.length_append] at read
    rw [List.length_append] at there
    rw [Session.next, next]
    refine read.trans ?_
    exact congrArg (fun position => some ((⟨source, position⟩ : ByteCursor), _)) there.symm

end ConfigExpr
