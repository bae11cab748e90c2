import ConfigExpr.Proofs.Prefix
import ConfigExpr.Proofs.Quotes
import Mathlib.Logic.ExistsUnique

/-! What an error says about its source. The errors fall into five cases, and `ErrorCase.Holds`
reads each of them as a statement about the source alone. `parse_error_truthful` says that just
one of these statements holds of every error that is reported. -/
namespace ConfigExpr

open Grammar (Blanks)

inductive ErrorCase where
  | strayCharacter
  | openString
  | refusedToken
  | earlyEnd
  | tooDeep
  deriving DecidableEq, Repr

def ErrorCase.Holds (source : List Char) (limit : Nat) : ErrorCase → ParseError → Prop
  | .strayCharacter, .lexical position (.character c) _ =>
    position < source.length ∧ source[position]? = some c ∧ ¬ isBlank c
  | .openString, .lexical position .endOfInput _ =>
    position = source.length ∧ source.count quoteMark % 2 = 1
  | .refusedToken, .unexpectedToken position found text expected =>
    text ≠ "" ∧ text.toList <+: source.drop position ∧
      (∀ kind, Context.topLevel.Spells kind text.toList ↔ kind = found) ∧
      found ≠ .endOfInput ∧ found ≠ .stringChars ∧ found ∉ expected
  | .earlyEnd, .unexpectedEndOfInput position expected =>
    position = source.length ∧ source.count quoteMark % 2 = 0 ∧ .endOfInput ∉ expected
  | .tooDeep, .nestingTooDeep position limit' =>
    limit' = limit ∧ isFunctionName ((source.drop position).takeWhile isWordChar)
  | _, _ => False

theorem ErrorCase.Holds.unique {source : List Char} {limit : Nat} {a b : ErrorCase}
    {error : ParseError} (ha : a.Holds source limit error) (hb : b.Holds source limit error) :
    a = b := by
  unfold Holds at ha hb
  split at ha <;> split at hb <;> simp_all

theorem State.expected_ne_nil (state : State) : state.expected ≠ [] := by
  cases state <;> simp [expected]

/-! A token that is refused stands outside string literals and not after a dot. So its text, taken
alone, has no other kind. -/

theorem Context.Spells.topLevel {kind : TokenKind} {text : List Char}
    (h : Context.inArguments.Spells kind text) : Context.topLevel.Spells kind text := by
  cases h with
  | punctuation _ mark => exact .punctuation (.inl rfl) mark
  | word _ word => exact .word (.inl rfl) word
  | number _ digits => exact .number (.inl rfl) digits

theorem Context.Spells.ne_stringChars {context : Context} {kind : TokenKind} {text : List Char}
    (h : context.Spells kind text) (outside : context ≠ .inString) : kind ≠ .stringChars := by
  cases h with
  | punctuation _ mark =>
    rintro rfl
    unfold punctuation? at mark
    split at mark <;> simp at mark
  | word _ _ =>
    intro h
    simpa [h] using wordKind_mem text
  | quote => exact absurd rfl outside
  | stringChars => exact absurd rfl outside
  | _ => simp

theorem spells_topLevel_of_refused {p : Nat} {state : State} {w text r : List Char}
    {kind : TokenKind} (skips : state.context.Skips w) (spells : state.context.Spells kind text)
    (refused : kind ∉ state.expected)
    (closes : Reader.ClosesString ⟨state, ⟨p, w ++ text ++ r⟩⟩) :
    Context.topLevel.Spells kind text := by
  cases state with
  | stringBody calls =>
    rcases spells_inString_iff.mp spells with ⟨rfl, -⟩ | ⟨rfl, -⟩
    · exact absurd (by simp [State.expected]) refused
    · exact absurd (by simp [State.expected]) refused
  | stringEnd calls content =>
    rcases spells_inString_iff.mp spells with ⟨rfl, -⟩ | ⟨rfl, nonempty, chars⟩
    · exact absurd (by simp [State.expected]) refused
    · obtain rfl := skips.2 rfl
      obtain ⟨c, t, rfl⟩ := List.exists_cons_of_ne_nil nonempty
      obtain rfl : c = quoteMark := closes calls content rfl c rfl
      simp [isStringText] at chars
  | memberName function members =>
    obtain ⟨rfl, -⟩ := spells_afterDot_iff.mp spells
    exact absurd (by simp [State.expected]) refused
  | firstArgument calls => exact Context.Spells.topLevel spells
  | nextArgument calls => exact Context.Spells.topLevel spells
  | _ => exact spells

/-! Each way to fail, behind a text whose quotes say whether the place is in a string literal. -/

section

variable {limit : Nat} {behind w text r : List Char} {state : State} {kind : TokenKind}

theorem holds_strayCharacter {c : Char} {expected : List TokenKind} (hc : ¬ isBlank c) :
    ErrorCase.strayCharacter.Holds (behind ++ (w ++ c :: r)) limit
      (.lexical (behind.length + w.length) (.character c) expected) := by
  refine ⟨?_, ?_, hc⟩
  · simp
  · rw [← List.append_assoc, ← List.length_append]
    simp

theorem holds_openString {expected : List TokenKind} (side : endsInside false behind = true) :
    ErrorCase.openString.Holds behind limit (.lexical behind.length .endOfInput expected) :=
  ⟨rfl, endsInside_false_iff.mp side⟩

theorem holds_earlyEnd {expected : List TokenKind} (hw : Blanks w)
    (side : endsInside false behind = false) (refused : .endOfInput ∉ expected) :
    ErrorCase.earlyEnd.Holds (behind ++ w) limit
      (.unexpectedEndOfInput (behind.length + w.length) expected) := by
  refine ⟨by simp, ?_, refused⟩
  have outside : ¬ endsInside false (behind ++ w) = true := by
    rw [endsInside_append, endsInside_of_not_mem (quoteMark_not_mem_of_blanks hw), side]
    simp
  rw [endsInside_false_iff] at outside
  omega

theorem holds_refusedToken {expected : List TokenKind}
    (spells : Context.topLevel.Spells kind text) (refused : kind ∉ expected) :
    ErrorCase.refusedToken.Holds (behind ++ (w ++ text ++ r)) limit
      (.unexpectedToken (behind.length + w.length) kind (String.ofList text) expected) := by
  refine ⟨?_, ?_, ?_, spells.kind_ne_endOfInput, spells.ne_stringChars (by simp), refused⟩
  · intro empty
    exact spells.ne_nil (by simpa using empty)
  · rw [String.toList_ofList, List.append_assoc, ← List.append_assoc behind, ← List.length_append,
      List.drop_left]
    exact List.prefix_append ..
  · intro kind'
    rw [String.toList_ofList]
    constructor
    · intro spells'
      exact spells'.kind_unique spells
    · rintro rfl
      exact spells

theorem holds_tooDeep {context : Context} (spells : context.Spells .functionName text)
    (ends : ∀ c ∈ r.head?, ¬ context.absorbs .functionName c) :
    ErrorCase.tooDeep.Holds (behind ++ (w ++ text ++ r)) limit
      (.nestingTooDeep (behind.length + w.length) limit) := by
  have name : isFunctionName text := spells.fits
  have chars := wordChars_of_isWord (isWord_of_isFunctionName name)
  rw [absorbs_functionName] at ends
  refine ⟨rfl, ?_⟩
  rw [List.append_assoc, ← List.append_assoc behind, ← List.length_append, List.drop_left,
    takeWhile_append_eq_left_iff.mpr ⟨chars, ends⟩]
  exact name

end

theorem exists_holds_of_fails {limit : Nat} {reader : Reader} {error : ParseError}
    {behind : List Char} (fails : Reader.Fails limit reader error)
    (hp : reader.cursor.position = behind.length)
    (side : endsInside false behind = reader.state.inside) (closes : reader.ClosesString) :
    ∃ errorCase : ErrorCase, errorCase.Holds (behind ++ reader.cursor.rest) limit error := by
  obtain ⟨state, ⟨p, rest⟩⟩ := reader
  obtain rfl : p = behind.length := hp
  cases fails with
  | lexical pulls =>
    cases pulls with
    | openString inString =>
      have inside : endsInside false behind = true := by
        rw [side]
        exact beq_iff_eq.mpr inString
      refine ⟨.openString, ?_⟩
      simpa using holds_openString inside
    | stray outside blanks hc none => exact ⟨.strayCharacter, holds_strayCharacter hc⟩
  | refused pulls refused =>
    cases pulls with
    | @token _ w text r kind skips spells ends =>
      have topLevel := spells_topLevel_of_refused skips spells refused closes
      have refusal : Reader.refusal state ⟨kind, String.ofList text, behind.length + w.length⟩ =
          .unexpectedToken (behind.length + w.length) kind (String.ofList text) state.expected :=
        if_neg spells.kind_ne_endOfInput
      exact ⟨.refusedToken, refusal ▸ holds_refusedToken topLevel refused⟩
    | endOfInput outside blanks =>
      have outer : endsInside false behind = false := by
        rw [side]
        exact beq_eq_false_iff_ne.mpr outside
      exact ⟨.earlyEnd, holds_earlyEnd blanks outer refused⟩
  | tooDeep pulls hk expected deep =>
    cases pulls with
    | token skips spells ends =>
      obtain rfl := hk
      exact ⟨.tooDeep, holds_tooDeep spells ends⟩
    | endOfInput outside blanks => contradiction

theorem exists_holds_of_reads {source : String} {limit : Nat} {tokens : List Token}
    {reader : Reader} {error : ParseError}
    (reads : Reader.Reads limit (.start source) tokens reader)
    (fails : Reader.Fails limit reader error) :
    ∃ errorCase : ErrorCase, errorCase.Holds source.toList limit error := by
  obtain ⟨behind, hs, hp⟩ := reads.rest_eq
  have side : endsInside false behind = reader.state.inside := reads.inside_eq hs
  have closes : reader.ClosesString :=
    reads.closesString (by simp [Reader.ClosesString, Reader.start])
  have position : reader.cursor.position = behind.length := hp.trans (Nat.zero_add _)
  obtain ⟨errorCase, holds⟩ := exists_holds_of_fails fails position side closes
  rw [← hs] at holds
  exact ⟨errorCase, holds⟩

/-- The case of an error, and what the error says in it. No other case fits, something is expected
unless a call nests too deep, and a character or the end of the source stands at a lexical error. -/
theorem parse_error_truthful (source : String) (limit : Nat) (error : ParseError)
    (h : Expression.parse ⟨limit⟩ source = .error error) :
    (∃! errorCase : ErrorCase, errorCase.Holds source.toList limit error) ∧
      (error.kind ≠ .nestingTooDeep → error.expected ≠ []) ∧
      ∀ position kind expected, error ≠ .lexical position (.token kind) expected := by
  obtain ⟨tokens, reader, reads, done⟩ := Reader.run_eq_iff.mp h
  have fails := Reader.step_eq_error_iff.mp done
  obtain ⟨errorCase, holds⟩ := exists_holds_of_reads reads fails
  refine ⟨⟨errorCase, holds, fun other hold => hold.unique holds⟩, ?_, ?_⟩
  · intro hk
    obtain ⟨-, -, -, -, -, expected⟩ := fails.gap
    rw [expected hk]
    exact reader.state.expected_ne_nil
  · rintro position kind expected rfl
    cases errorCase <;> exact holds

theorem parse_error_truthful_after_string :
    Expression.parse ⟨2⟩ "[f('日' x" =
      .error (.unexpectedToken 7 .functionName "x" [.comma, .rightParen]) ∧
    (∃! errorCase : ErrorCase, errorCase.Holds "[f('日' x".toList 2
      (.unexpectedToken 7 .functionName "x" [.comma, .rightParen])) := by
  have refused : Expression.parse ⟨2⟩ "[f('日' x" =
      .error (.unexpectedToken 7 .functionName "x" [.comma, .rightParen]) :=
    Reader.run_eq_iff.mpr ⟨_, _, .token rfl rfl (.token rfl rfl (.token rfl rfl
      (.token rfl rfl (.token rfl rfl (.token rfl rfl .here))))), rfl⟩
  exact ⟨refused, (parse_error_truthful _ _ _ refused).1⟩

end ConfigExpr
