import ConfigExpr.Proofs.Tiling

/-! The checks of hand-built nodes against the scan. A check looks at its text from outside any
source, and the scan cuts a source. `check_isOk_iff_scan` says that a check accepts exactly the
texts that the scan takes whole, where a node of the kind stands. -/
namespace ConfigExpr

def Session.TakesWhole (context : Context) (kind : TokenKind) (source : String) : Prop :=
  ∃ after token, (start source).next context = (after, .ok token) ∧ token.kind = kind ∧
    (start source).span token = (0, source.utf8ByteSize)

/-- Calls inside a string literal give other tokens and then a quote that starts at the byte. -/
def Session.FirstQuoteAt (source : String) (byte : Nat) : Prop :=
  ∃ calls after token, (start source).call .inString calls = (after, .ok token) ∧
    token.kind = .quote ∧ ((start source).span token).1 = byte ∧
    ∀ earlier < calls, ∃ other, ((start source).call .inString earlier).2 = .ok other ∧
      other.kind ≠ .quote

theorem Slice.eq_of_whole {source text : String} (h : Slice source 0 source.utf8ByteSize text) :
    text = source := by
  obtain ⟨before, behind, rfl, start, stop⟩ := h
  rw [String.utf8ByteSize_append, String.utf8ByteSize_append] at stop
  obtain rfl : before = "" := String.utf8ByteSize_eq_zero_iff.mp start
  obtain rfl : behind = "" := String.utf8ByteSize_eq_zero_iff.mp (by omega)
  simp

namespace Session

variable {context : Context} {kind : TokenKind} {source : String}

theorem start_eq (source : String) : start source = ⟨source, ⟨0, source.toList⟩⟩ := rfl

/-- One token covers a text if and only if the text has a spelling of its kind: no blank stands
before it and nothing after it. -/
theorem takesWhole_iff (hk : kind ≠ .endOfInput) :
    TakesWhole context kind source ↔ context.Spells kind source.toList := by
  constructor
  · rintro ⟨after, token, given, rfl, span⟩
    have piece := ((placed_start source).gives given).piece
    rw [span] at piece
    have whole : token.text = source := piece.eq_of_whole
    obtain ⟨-, pulls⟩ := next_eq_ok_iff.mp given
    rw [← whole]
    generalize (start source).cursor = cursor, after.cursor = behind at pulls
    cases pulls with
    | token _ spells _ => rwa [String.toList_ofList]
    | endOfInput => exact absurd rfl hk
  · intro spells
    have pulls := Cursor.Pulls.token (p := 0) (r := []) context.skips_nil spells (by simp)
    have given : (start source).next context =
        (⟨source, ⟨source.toList.length, []⟩⟩, .ok ⟨kind, source, 0⟩) := by
      rw [start_eq, next_eq_ok_iff]
      simpa using pulls
    exact ⟨_, _, given, rfl, by simp [span, byteOffset]⟩

theorem FirstQuoteAt.unique {byte byte' : Nat} (h : FirstQuoteAt source byte)
    (h' : FirstQuoteAt source byte') : byte = byte' := by
  obtain ⟨calls, after, token, given, quote, rfl, first⟩ := h
  obtain ⟨calls', after', token', given', quote', rfl, first'⟩ := h'
  rcases Nat.lt_trichotomy calls calls' with earlier | rfl | later
  · obtain ⟨other, answer, no_quote⟩ := first' calls earlier
    rw [given] at answer
    exact absurd (Except.ok.inj answer ▸ quote) no_quote
  · obtain ⟨-, same⟩ := Prod.mk.inj (given.symm.trans given')
    rw [Except.ok.inj same]
  · obtain ⟨other, answer, no_quote⟩ := first calls' later
    rw [given'] at answer
    exact absurd (Except.ok.inj answer ▸ quote') no_quote

theorem span_of_split {before behind : List Char} {token : Token}
    (split : source.toList = before ++ behind) (place : token.start = before.length) :
    ((start source).span token).1 = (String.ofList before).utf8ByteSize := by
  have bytes := byteOffset_append before behind
  rwa [← split, ← place] at bytes

theorem next_quote (source : String) (place : Nat) (behind : List Char) :
    next .inString ⟨source, ⟨place, quoteMark :: behind⟩⟩ =
      (⟨source, ⟨place + 1, behind⟩⟩, .ok ⟨.quote, "'", place⟩) :=
  rfl

/-- The text in front of the first quote is one token, unless there is none. -/
theorem firstQuoteAt {before behind : List Char}
    (split : source.toList = before ++ quoteMark :: behind) (inside : isStringText before) :
    FirstQuoteAt source (String.ofList before).utf8ByteSize := by
  have started := start_eq source
  rw [split] at started
  by_cases empty : before = []
  · subst empty
    have given : (start source).next .inString = _ :=
      started ▸ next_quote source 0 behind
    exact ⟨0, _, _, given, rfl, span_of_split split rfl, by simp⟩
  · have pulls := Cursor.Pulls.token (p := 0) (r := quoteMark :: behind) Context.inString.skips_nil
      (.stringChars empty inside) (by simp [Context.absorbs])
    have first : (start source).next .inString =
        (⟨source, ⟨before.length, quoteMark :: behind⟩⟩,
          .ok ⟨.stringChars, .ofList before, 0⟩) := by
      rw [started, next_eq_ok_iff]
      simpa using pulls
    have second : (start source).call .inString 1 =
        next .inString ⟨source, ⟨before.length, quoteMark :: behind⟩⟩ :=
      congrArg (next .inString ∘ Prod.fst) first
    have given := second.trans (next_quote source before.length behind)
    refine ⟨1, _, _, given, rfl, span_of_split split rfl, ?_⟩
    intro earlier before_one
    obtain rfl : earlier = 0 := Nat.lt_one_iff.mp before_one
    exact ⟨_, congrArg Prod.snd first, by simp⟩

/-- A quote of its own would be met before the one that is added. -/
theorem firstQuoteAt_end_iff (text : String) :
    FirstQuoteAt (text ++ "'") text.utf8ByteSize ↔ isStringText text.toList := by
  constructor
  · intro last
    rw [isStringText_iff]
    intro mem
    obtain ⟨before, behind, split, absent⟩ := List.eq_append_cons_of_mem mem
    have whole : (text ++ "'").toList = before ++ quoteMark :: (behind ++ [quoteMark]) := by
      rw [String.toList_append, split]
      simp [quoteMark]
    have earlier := firstQuoteAt whole (isStringText_iff.mpr absent)
    have same := earlier.unique last
    have longer := congrArg (fun chars => (String.ofList chars).utf8ByteSize) split
    simp only [String.ofList_toList, String.ofList_append, String.ofList_cons,
      String.utf8ByteSize_append, String.utf8ByteSize_singleton, quoteMark] at longer
    have := Char.utf8Size_pos '\x27'
    omega
  · intro inside
    have whole : (text ++ "'").toList = text.toList ++ quoteMark :: [] := String.toList_append
    have first := firstQuoteAt whole inside
    rwa [String.ofList_toList] at first

end Session

theorem isOk_ite {p : Prop} [Decidable p] {α β : Type} {a : α} {b : β} :
    (if p then Except.ok a else .error b).isOk ↔ p := by
  split <;> simp_all [Except.isOk, Except.toBool]

/-! Each spelling of a node is one of the rules of its context. -/

theorem spells_functionName_iff {context : Context} {text : List Char}
    (place : context = .topLevel ∨ context = .inArguments) :
    context.Spells .functionName text ↔ isFunctionName text :=
  ⟨Context.Spells.fits, spells_functionName place⟩

theorem spells_number_iff {context : Context} {text : List Char}
    (place : context = .topLevel ∨ context = .inArguments) :
    context.Spells .number text ↔ isNumber text :=
  ⟨Context.Spells.fits, .number place⟩

/-- The checks and the scan agree on every text. A string literal is met by its end: its text may
hold anything but the quote that is added behind it. -/
theorem check_isOk_iff_scan (text : String) (arguments : List Argument) :
    ((Call.check text arguments).isOk ↔ Session.TakesWhole .topLevel .functionName text) ∧
    ((Call.check text arguments).isOk ↔ Session.TakesWhole .inArguments .functionName text) ∧
    ((checkNumber text).isOk ↔ Session.TakesWhole .inArguments .number text) ∧
    ((checkMemberName text).isOk ↔ Session.TakesWhole .afterDot .memberName text) ∧
    ((checkStringText text).isOk ↔ Session.FirstQuoteAt (text ++ "'") text.utf8ByteSize) := by
  refine ⟨?_, ?_, ?_, ?_, ?_⟩
  · rw [Session.takesWhole_iff (by simp), spells_functionName_iff (.inl rfl)]
    exact isOk_ite
  · rw [Session.takesWhole_iff (by simp), spells_functionName_iff (.inr rfl)]
    exact isOk_ite
  · rw [Session.takesWhole_iff (by simp), spells_number_iff (.inr rfl)]
    exact isOk_ite
  · rw [Session.takesWhole_iff (by simp), spells_afterDot_iff, and_iff_right rfl]
    exact isOk_ite
  · rw [Session.firstQuoteAt_end_iff]
    exact isOk_ite

end ConfigExpr
