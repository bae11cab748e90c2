import ConfigExpr.Token.Rule

/-! Where a lexeme ends. `lexeme?_append_eq_some_iff` says that a text is the lexeme in front of
another text exactly when it has a spelling and the next character does not prolong it. So one
character of look-ahead decides. -/
namespace ConfigExpr

/-- The characters that prolong a token. A number at top level also turns into a member name. -/
def Context.absorbs : Context → TokenKind → Char → Bool
  | .topLevel, .number, c => c.isDigit || c.isAlpha || c == '_'
  | _, .number, c => c.isDigit
  | _, .functionName, c => isWordChar c
  | _, .trueWord, c => isWordChar c
  | _, .falseWord, c => isWordChar c
  | _, .memberName, c => isWordChar c
  | _, .stringChars, c => c != quoteMark
  | _, _, _ => false

theorem takeWhile_append_eq_left_iff {p : Char → Bool} {a r : List Char} :
    (a ++ r).takeWhile p = a ↔ (∀ c ∈ a, p c) ∧ ∀ c ∈ r.head?, ¬ p c := by
  induction a with
  | nil => cases r <;> simp [List.takeWhile_cons]
  | cons c a ih =>
    by_cases hc : p c
    · simp [hc, ih]
    · simp [hc]

/-! Character classes that exclude each other. -/

theorem isWordChar_of_isAlpha {c : Char} (h : c.isAlpha) : isWordChar c := by
  simp [isWordChar, Char.isAlphanum, h]

theorem not_isDigit_of_isAlpha {c : Char} (h : c.isAlpha) : ¬ c.isDigit := by
  intro hd
  have digit : c.toNat ≤ 57 := (Char.isDigit_iff_toNat.mp hd).2
  have letter : decide (65 ≤ c.val ∧ c.val ≤ 90) ||
      (decide (97 ≤ c.val) && decide (c.val ≤ 122)) := h
  simp only [Bool.or_eq_true, Bool.and_eq_true, decide_eq_true_eq, UInt32.le_iff_toNat_le,
    UInt32.reduceToNat] at letter
  rw [Char.toNat_val] at letter
  omega

theorem not_isBlank_of_isWordChar {c : Char} (h : isWordChar c) : ¬ isBlank c := by
  intro hb
  simp only [isBlank, Bool.or_eq_true, beq_iff_eq] at hb
  rcases hb with ((rfl | rfl) | rfl) | rfl <;> revert h <;> decide

theorem not_word_or_blank_of_punctuation? {c : Char} {kind : TokenKind}
    (h : punctuation? c = some kind) : ¬ isWordChar c ∧ ¬ isBlank c := by
  have marks : c ∈ ['[', ']', '(', ')', ',', '\x27', '.'] := by
    unfold punctuation? at h
    split at h <;> simp_all
  revert marks
  simp only [List.mem_cons, List.not_mem_nil, or_false]
  rintro (rfl | rfl | rfl | rfl | rfl | rfl | rfl) <;> decide

theorem punctuation?_eq_none {c : Char} (h : isWordChar c) : punctuation? c = none := by
  cases hp : punctuation? c with
  | none => rfl
  | some kind => exact absurd h (not_word_or_blank_of_punctuation? hp).1

/-! The spellings, character by character. -/

theorem isNumber_iff {text : List Char} :
    isNumber text ↔ text ≠ [] ∧ ∀ c ∈ text, c.isDigit := by
  simp [isNumber]

theorem isNumber_cons_iff {c : Char} {r : List Char} :
    isNumber (c :: r) ↔ c.isDigit ∧ ∀ x ∈ r, x.isDigit := by
  simp [isNumber]

theorem isMemberName_iff {text : List Char} :
    isMemberName text ↔ text ≠ [] ∧ ∀ c ∈ text, isWordChar c := by
  simp [isMemberName]

theorem isMemberName_cons_iff {c : Char} {r : List Char} :
    isMemberName (c :: r) ↔ isWordChar c ∧ ∀ x ∈ r, isWordChar x := by
  simp [isMemberName]

theorem isStringText_iff {text : List Char} : isStringText text ↔ quoteMark ∉ text := by
  rw [isStringText, List.all_eq_true]
  constructor
  · intro all mem
    simpa using all quoteMark mem
  · intro absent c mem
    rw [bne_iff_ne]
    rintro rfl
    exact absent mem

theorem wordChars_of_isNumber {text : List Char} (h : isNumber text) :
    ∀ c ∈ text, isWordChar c := by
  intro c hc
  exact isWordChar_of_isDigit ((isNumber_iff.mp h).2 c hc)

theorem wordChars_of_isWord {text : List Char} (h : IsWord text) : ∀ c ∈ text, isWordChar c := by
  obtain ⟨c, r, rfl, hc, hr⟩ := h
  intro x hx
  rcases List.mem_cons.mp hx with rfl | hx
  · exact isWordChar_of_isAlpha hc
  · exact hr x hx

theorem isWord_of_isFunctionName {text : List Char} (h : isFunctionName text) : IsWord text := by
  cases text with
  | nil => simp [isFunctionName] at h
  | cons c r =>
    simp only [isFunctionName, Bool.and_eq_true, List.all_eq_true] at h
    exact ⟨c, r, rfl, h.1.1.1, h.1.1.2⟩

theorem wordChars_of_isOddWord {text : List Char} (word : IsOddWord text) :
    ∀ c ∈ text, isWordChar c := by
  rcases word with ⟨c, t, rfl, hc, ht⟩ | ⟨digits, c, t, rfl, hd, hc, ht⟩
  · intro x hx
    rcases List.mem_cons.mp hx with rfl | hx
    · rcases hc with rfl | rfl <;> rfl
    · exact ht x hx
  · intro x hx
    rcases List.mem_append.mp hx with hx | hx
    · exact wordChars_of_isNumber hd x hx
    · rcases List.mem_cons.mp hx with rfl | hx
      · rcases hc with hc | rfl
        · exact isWordChar_of_isAlpha hc
        · rfl
      · exact ht x hx

/-! Each spelling against what may follow it. -/

theorem startsMemberName_iff {c : Char} {r : List Char} :
    startsMemberName (c :: r) ↔ (c = '-' ∨ c = '_') ∨
      c.isDigit ∧ ∃ n ∈ (r.dropWhile Char.isDigit).head?, n.isAlpha ∨ n = '_' := by
  simp [startsMemberName, Option.any_eq_true]

theorem not_startsMemberName_of_isAlpha {c : Char} (h : c.isAlpha) (r : List Char) :
    ¬ startsMemberName (c :: r) := by
  rw [startsMemberName_iff]
  rintro ((rfl | rfl) | ⟨hd, -⟩)
  · exact absurd h (by decide)
  · exact absurd h (by decide)
  · exact not_isDigit_of_isAlpha h hd

theorem not_startsMemberName_of_punctuation? {c : Char} {kind : TokenKind}
    (h : punctuation? c = some kind) (r : List Char) : ¬ startsMemberName (c :: r) := by
  have hw := (not_word_or_blank_of_punctuation? h).1
  rw [startsMemberName_iff]
  rintro ((rfl | rfl) | ⟨hd, -⟩)
  · exact hw rfl
  · exact hw rfl
  · exact hw (isWordChar_of_isDigit hd)

theorem lexeme?_eq_sharedLexeme? {context : Context} {c : Char} {r : List Char}
    (place : context = .topLevel ∨ context = .inArguments)
    (h : context = .topLevel → ¬ startsMemberName (c :: r)) :
    context.lexeme? (c :: r) = sharedLexeme? (c :: r) := by
  rcases place with rfl | rfl
  · simp only [Context.lexeme?, if_neg (h rfl)]
  · rfl

theorem absorbs_wordKind (context : Context) (word : List Char) (c : Char) :
    context.absorbs (wordKind word) c = isWordChar c := by
  unfold wordKind
  split
  · cases context <;> rfl
  · split <;> cases context <;> rfl

theorem absorbs_functionName (context : Context) :
    context.absorbs .functionName = isWordChar := by
  cases context <;> rfl

theorem absorbs_of_punctuation? {c : Char} {kind : TokenKind} (h : punctuation? c = some kind)
    (context : Context) (d : Char) : context.absorbs kind d = false := by
  unfold punctuation? at h
  split at h <;> simp only [Option.some.injEq, reduceCtorEq] at h <;> subst h <;>
    cases context <;> rfl

theorem lexeme?_word_iff {context : Context} {text r : List Char}
    (place : context = .topLevel ∨ context = .inArguments) (word : IsWord text) :
    context.lexeme? (text ++ r) = some (wordKind text, text) ↔
      ∀ c ∈ r.head?, ¬ context.absorbs (wordKind text) c := by
  obtain ⟨c, t, rfl, ha, ht⟩ := word
  rw [List.cons_append, lexeme?_eq_sharedLexeme? place fun _ =>
    not_startsMemberName_of_isAlpha ha _]
  simp only [sharedLexeme?, punctuation?_eq_none (isWordChar_of_isAlpha ha), if_pos ha,
    Option.some.injEq, Prod.mk.injEq, absorbs_wordKind]
  constructor
  · rintro ⟨-, hw⟩
    exact (takeWhile_append_eq_left_iff.mp (List.cons.inj hw).2).2
  · intro hr
    rw [takeWhile_append_eq_left_iff.mpr ⟨ht, hr⟩]
    exact ⟨rfl, rfl⟩

/-- A digit run is a number unless a letter or `_` turns it into a member name. -/
theorem startsMemberName_digits_iff {c : Char} {t r : List Char} (digits : isNumber (c :: t)) :
    startsMemberName (c :: (t ++ r)) ↔
      ∃ n ∈ (r.dropWhile Char.isDigit).head?, n.isAlpha ∨ n = '_' := by
  obtain ⟨hc, ht⟩ := isNumber_cons_iff.mp digits
  rw [startsMemberName_iff, List.dropWhile_append_of_pos ht]
  constructor
  · rintro ((rfl | rfl) | ⟨-, h⟩)
    · exact absurd hc (by decide)
    · exact absurd hc (by decide)
    · exact h
  · exact fun h => .inr ⟨hc, h⟩

theorem sharedLexeme?_digits_iff {text r : List Char} (digits : isNumber text) :
    sharedLexeme? (text ++ r) = some (.number, text) ↔ ∀ c ∈ r.head?, ¬ c.isDigit := by
  cases text with
  | nil => simp [isNumber] at digits
  | cons c t =>
    obtain ⟨hc, ht⟩ := isNumber_cons_iff.mp digits
    have ha : ¬ c.isAlpha := fun ha => not_isDigit_of_isAlpha ha hc
    rw [List.cons_append]
    simp only [sharedLexeme?, punctuation?_eq_none (isWordChar_of_isDigit hc), if_neg ha,
      if_pos hc, Option.some.injEq, Prod.mk.injEq, true_and, List.cons.injEq]
    rw [takeWhile_append_eq_left_iff, and_iff_right ht]

theorem lexeme?_number_iff {context : Context} {text r : List Char}
    (place : context = .topLevel ∨ context = .inArguments) (digits : isNumber text) :
    context.lexeme? (text ++ r) = some (.number, text) ↔
      ∀ c ∈ r.head?, ¬ context.absorbs .number c := by
  rcases place with rfl | rfl
  · cases text with
    | nil => simp [isNumber] at digits
    | cons c t =>
      have turns := startsMemberName_digits_iff (r := r) digits
      have shared := sharedLexeme?_digits_iff (r := r) digits
      rw [List.cons_append] at shared ⊢
      by_cases hm : startsMemberName (c :: (t ++ r))
      · -- The character that turns the number into a name is a digit or stands right after it.
        obtain ⟨n, hn, hw⟩ := turns.mp hm
        simp only [Context.lexeme?, if_pos hm, Option.some.injEq, Prod.mk.injEq, reduceCtorEq,
          false_and, false_iff]
        cases r with
        | nil => simp at hn
        | cons d r =>
          by_cases hd : d.isDigit
          · simp [Context.absorbs, hd]
          · obtain rfl : d = n := by simpa [hd] using hn
            exact fun h => h d rfl (by simpa [Context.absorbs, hd] using hw)
      · simp only [Context.lexeme?, if_neg hm, shared]
        rw [turns] at hm
        cases r with
        | nil => simp
        | cons d r =>
          by_cases hd : d.isDigit
          · simp [Context.absorbs, hd]
          · simpa [Context.absorbs, hd] using hm
  · cases text with
    | nil => simp [isNumber] at digits
    | cons c t => exact sharedLexeme?_digits_iff digits

theorem startsMemberName_of_isOddWord {text : List Char} (word : IsOddWord text) (r : List Char) :
    startsMemberName (text ++ r) := by
  rcases word with ⟨c, t, rfl, hc, -⟩ | ⟨digits, c, t, rfl, hd, hc, -⟩
  · exact startsMemberName_iff.mpr (.inl hc)
  · cases digits with
    | nil => simp [isNumber] at hd
    | cons d ds =>
      have hn : ¬ c.isDigit := by
        rcases hc with hc | rfl
        · exact not_isDigit_of_isAlpha hc
        · decide
      rw [List.append_assoc, List.cons_append, startsMemberName_digits_iff hd]
      exact ⟨c, by simp [hn], hc⟩

theorem lexeme?_append_iff_of_spells {context : Context} {kind : TokenKind} {text r : List Char}
    (spells : context.Spells kind text) :
    context.lexeme? (text ++ r) = some (kind, text) ↔
      ∀ c ∈ r.head?, ¬ context.absorbs kind c := by
  cases spells with
  | @punctuation _ c _ place mark =>
    rw [List.cons_append, lexeme?_eq_sharedLexeme? place fun _ =>
      not_startsMemberName_of_punctuation? mark _]
    simp [sharedLexeme?, mark, absorbs_of_punctuation? mark]
  | word place word => exact lexeme?_word_iff place word
  | number place digits => exact lexeme?_number_iff place digits
  | oddMember word =>
    have starts := startsMemberName_of_isOddWord word r
    have chars := wordChars_of_isOddWord word
    cases text with
    | nil => simp [IsOddWord] at word
    | cons c t =>
      rw [List.cons_append] at starts ⊢
      simp only [Context.lexeme?, if_pos starts, Option.some.injEq, Prod.mk.injEq, true_and,
        List.cons.injEq, Context.absorbs]
      rw [takeWhile_append_eq_left_iff,
        and_iff_right fun x hx => chars x (List.mem_cons_of_mem c hx)]
  | member word =>
    cases text with
    | nil => simp [isMemberName] at word
    | cons c t =>
      obtain ⟨hc, ht⟩ := isMemberName_cons_iff.mp word
      simp only [List.cons_append, Context.lexeme?, if_pos hc, Option.some.injEq,
        Prod.mk.injEq, true_and, List.cons.injEq, Context.absorbs]
      rw [takeWhile_append_eq_left_iff, and_iff_right ht]
  | quote => simp [Context.lexeme?, Context.absorbs]
  | stringChars nonempty inside =>
    cases text with
    | nil => exact absurd rfl nonempty
    | cons c t =>
      simp only [isStringText, List.all_cons, Bool.and_eq_true, List.all_eq_true] at inside
      have hc : c ≠ quoteMark := by simpa using inside.1
      simp only [List.cons_append, Context.lexeme?, if_neg hc, Option.some.injEq,
        Prod.mk.injEq, true_and, List.cons.injEq, Context.absorbs]
      rw [takeWhile_append_eq_left_iff, and_iff_right inside.2]

/-- The lexeme in front of a text is settled by its spelling and by the one character after it. -/
theorem lexeme?_append_eq_some_iff {context : Context} {kind : TokenKind} {text r : List Char} :
    context.lexeme? (text ++ r) = some (kind, text) ↔
      context.Spells kind text ∧ ∀ c ∈ r.head?, ¬ context.absorbs kind c := by
  constructor
  · intro h
    have spells := spells_of_lexeme? h
    exact ⟨spells, (lexeme?_append_iff_of_spells spells).mp h⟩
  · rintro ⟨spells, ends⟩
    exact (lexeme?_append_iff_of_spells spells).mpr ends

/-! A character that starts no token is known as one by itself. -/

theorem sharedLexeme?_eq_none_iff {c : Char} {r : List Char} :
    sharedLexeme? (c :: r) = none ↔ punctuation? c = none ∧ ¬ c.isAlpha ∧ ¬ c.isDigit := by
  simp only [sharedLexeme?]
  split
  · next h => simp [h]
  · next h =>
    rw [h]
    split
    · next ha => simp [ha]
    · next ha => simp [ha]

theorem lexeme?_topLevel_eq_none_iff {c : Char} {r : List Char} :
    Context.topLevel.lexeme? (c :: r) = none ↔
      c ≠ '-' ∧ c ≠ '_' ∧ punctuation? c = none ∧ ¬ c.isAlpha ∧ ¬ c.isDigit := by
  simp only [Context.lexeme?]
  split
  · next h =>
    rcases startsMemberName_iff.mp h with (rfl | rfl) | ⟨hd, -⟩
    · simp
    · simp
    · simp [hd]
  · next h =>
    rw [startsMemberName_iff, not_or, not_or] at h
    rw [sharedLexeme?_eq_none_iff, and_iff_right h.1.1, and_iff_right h.1.2]

theorem ne_inString_of_lexeme?_eq_none {context : Context} {c : Char} {r : List Char}
    (h : context.lexeme? (c :: r) = none) : context ≠ .inString := by
  rintro rfl
  simp only [Context.lexeme?] at h
  split at h <;> simp at h

theorem lexeme?_cons_eq_none {context : Context} {c : Char} {r : List Char}
    (h : context.lexeme? (c :: r) = none) (r' : List Char) : context.lexeme? (c :: r') = none := by
  cases context with
  | topLevel => exact lexeme?_topLevel_eq_none_iff.mpr (lexeme?_topLevel_eq_none_iff.mp h)
  | inArguments => exact sharedLexeme?_eq_none_iff.mpr (sharedLexeme?_eq_none_iff.mp h)
  | afterDot =>
    have hc : ¬ isWordChar c := by simpa [Context.lexeme?] using h
    exact if_neg hc
  | inString => exact absurd rfl (ne_inString_of_lexeme?_eq_none h)

end ConfigExpr
