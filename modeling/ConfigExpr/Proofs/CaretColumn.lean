import ConfigExpr.Proofs.ReportRows

/-! Where the caret of a report stands. The line and the caret are written behind gutters of their
own. Both are seven characters wide while the number of the line has four digits at most; a longer
number widens the gutter of the line alone. -/
namespace ConfigExpr

/-- The rows of the report are a message, the line that the position of the error is in, and the
caret. The caret has the same index in its row as the character at the position has in the row of
the line. At the end of the source that is one past the end of the row. -/
def CaretUnder (source : String) (error : ParseError) : Prop :=
  let lines := source.toList.splitOn '\n'
  let number := (source.toList.take error.position).count '\n'
  ∃ message gutter line padding,
    (error.report source).toList.splitOn '\n' = [message, gutter ++ line, padding ++ ['^']] ∧
    lines[number]? = some line ∧
    '^' ∉ padding ∧
    padding.length = gutter.length + (error.position - lineStart lines number) ∧
    (gutter ++ line)[padding.length]? = source.toList[error.position]? ∧
    (error.position = source.toList.length → padding.length = (gutter ++ line).length)

theorem length_padLeft (width : Nat) (text : String) :
    (padLeft width text).length = max width text.length := by
  rw [padLeft, String.length_append, String.length_ofList, List.length_replicate]
  omega

theorem length_lineNumber_le_iff (n : Nat) : (toString n).length ≤ 4 ↔ n < 10000 := by
  rw [Nat.toString_eq_repr, Nat.repr_eq_ofList_toDigits, String.length_ofList]
  exact Nat.length_toDigits_le_iff (by decide) (by decide)

theorem caret_not_mem_caretPadding (line : List Char) (column : Nat) :
    '^' ∉ caretPadding line column := by
  rw [caretPadding, List.mem_map]
  rintro ⟨c, -, caret⟩
  split at caret <;> simp at caret

def lineGutter (number : Nat) : List Char := (padLeft 4 (toString number) ++ " | ").toList

def caretGutter : List Char := "     | ".toList

theorem length_lineGutter_eq_iff (number : Nat) :
    (lineGutter number).length = caretGutter.length ↔ number < 10000 := by
  have wide : (lineGutter number).length = max 4 (toString number).length + 3 := by
    rw [lineGutter, String.length_toList, String.length_append, length_padLeft]
    rfl
  have fixed : caretGutter.length = 7 := rfl
  have digits := length_lineNumber_le_iff number
  rw [wide, fixed]
  omega

theorem ParseError.splitOn_report_gutters (source : String) (error : ParseError) :
    let place := Place.of source.toList error.position
    (error.report source).toList.splitOn '\n' =
      [("error: " ++ error.message).toList, lineGutter place.lineNumber ++ place.line,
        caretGutter ++ caretPadding place.line place.column ++ ['^']] := by
  intro place
  have line : (String.ofList place.line).toList = place.line := String.toList_ofList
  have padding : (String.ofList (caretPadding place.line place.column)).toList =
      caretPadding place.line place.column := String.toList_ofList
  have quoted : (padLeft 4 (toString place.lineNumber) ++ " | " ++
      String.ofList place.line).toList = lineGutter place.lineNumber ++ place.line := by
    rw [String.toList_append, line, lineGutter]
  have caret : ("     | " ++ String.ofList (caretPadding place.line place.column) ++
      "^").toList = caretGutter ++ caretPadding place.line place.column ++ ['^'] := by
    rw [String.toList_append, String.toList_append, padding]
    rfl
  rw [← quoted, ← caret]
  exact error.splitOn_report source

/-- Of an error in the source and at no line feed, the caret stands under the character as far as
the gutters are of the same width. -/
theorem caretUnder_iff {source : String} {error : ParseError}
    (inside : error.position ≤ source.toList.length)
    (within : source.toList[error.position]? ≠ some '\n') :
    CaretUnder source error ↔
      (source.toList.take error.position).count '\n' + 1 < 10000 := by
  have rows := error.splitOn_report_gutters source
  have quoted := Place.line_of source.toList error.position
  have start := Place.lineStart_add_column source.toList error.position
  obtain ⟨column_le, shown⟩ := Place.of_inside source.toList error.position inside within
  rw [← Place.lineNumber_of, ← length_lineGutter_eq_iff]
  generalize Place.of source.toList error.position = place at *
  have column : error.position - lineStart (source.toList.splitOn '\n')
      ((source.toList.take error.position).count '\n') = place.column := by
    omega
  have width : (caretGutter ++ caretPadding place.line place.column).length =
      caretGutter.length + place.column := by
    rw [List.length_append, length_caretPadding, Nat.min_eq_left column_le]
  constructor
  · rintro ⟨message, gutter, line, padding, same, line_eq, -, under, -⟩
    obtain rfl := Option.some.inj (quoted.symm.trans line_eq)
    rw [rows, List.cons.injEq, List.cons.injEq, List.cons.injEq] at same
    obtain ⟨-, gutters, paddings, -⟩ := same
    have gutter_eq := List.append_cancel_right gutters
    have padding_eq := List.append_cancel_right paddings
    rw [column, ← gutter_eq, ← padding_eq, width] at under
    omega
  · intro same
    refine ⟨_, _, _, _, rows, quoted, ?_, ?_, ?_, ?_⟩
    · rw [List.mem_append, not_or]
      exact ⟨by decide, caret_not_mem_caretPadding _ _⟩
    · rw [width, column, same]
    · rw [width, ← same, List.getElem?_append_right (Nat.le_add_right _ _), Nat.add_sub_cancel_left,
        shown]
    · intro ends
      rw [ends, List.getElem?_eq_none (Nat.le_refl _), List.getElem?_eq_none_iff] at shown
      rw [width, ← same, List.length_append]
      omega

/-- The caret of an error of the source stands under the offending character, or at the end of the
line when the source ends too early, in the first 9999 lines of the source and in no other. -/
theorem report_caret_under_iff {source : String} {limit : Nat} {error : ParseError}
    (h : Expression.parse ⟨limit⟩ source = .error error) :
    CaretUnder source error ↔
      (source.toList.take error.position).count '\n' + 1 < 10000 := by
  obtain ⟨tokens, reader, reads, done⟩ := Reader.run_eq_iff.mp h
  obtain ⟨errorCase, holds⟩ := exists_holds_of_reads reads (Reader.step_eq_error_iff.mp done)
  obtain ⟨inside, within⟩ := holds.points
  exact caretUnder_iff inside within

theorem report_caret_under_second_line :
    Expression.parse ⟨1⟩ "[f(1,\n\t$)]" = .error strayDollar ∧
      CaretUnder "[f(1,\n\t$)]" strayDollar := by
  have stray : Expression.parse ⟨1⟩ "[f(1,\n\t$)]" = .error strayDollar :=
    Reader.run_eq_of_runWithin? 6 rfl
  exact ⟨stray, (report_caret_under_iff stray).mpr (by decide)⟩

def strayBehind (count : Nat) : String := String.ofList (List.replicate count '\n' ++ ['$'])

theorem toList_strayBehind (count : Nat) :
    (strayBehind count).toList = List.replicate count '\n' ++ ['$'] :=
  String.toList_ofList

theorem parse_strayBehind (limit count : Nat) :
    Expression.parse ⟨limit⟩ (strayBehind count) =
      .error (.lexical count (.character '$') [.leftBracket]) := by
  have blanks : Grammar.Blanks (List.replicate count '\n') := by
    intro c mem
    rw [List.eq_of_mem_replicate mem]
    decide
  have pulls : Cursor.Pulls .topLevel ⟨0, List.replicate count '\n' ++ ['$']⟩ _ _ :=
    .stray (by decide) blanks (by decide) rfl
  rw [Nat.zero_add, List.length_replicate, ← toList_strayBehind] at pulls
  have fails : Reader.Fails limit (.start (strayBehind count))
      (.lexical count (.character '$') [.leftBracket]) :=
    @Reader.Fails.lexical limit (.start _) _ _ pulls
  exact Reader.run_eq_iff.mpr ⟨[], _, .here, Reader.step_eq_error_iff.mpr fails⟩

/-- On line 10000 the caret stands one place to the left of the character. -/
theorem report_caret_left_of_stray :
    Expression.parse ⟨64⟩ (strayBehind 9999) =
        .error (.lexical 9999 (.character '$') [.leftBracket]) ∧
      ¬ CaretUnder (strayBehind 9999) (.lexical 9999 (.character '$') [.leftBracket]) := by
  have text := toList_strayBehind 9999
  have length : (List.replicate 9999 '\n').length = 9999 := List.length_replicate
  have before : (strayBehind 9999).toList.take 9999 = List.replicate 9999 '\n' := by
    rw [text, List.take_left' length]
  have here : (strayBehind 9999).toList[9999]? = some '$' := by
    rw [text, List.getElem?_append_right (Nat.le_of_eq length), length]
    rfl
  refine ⟨parse_strayBehind 64 9999, ?_⟩
  rw [caretUnder_iff, ParseError.position, before, List.count_replicate_self]
  · decide
  · rw [ParseError.position, text, List.length_append, length]
    decide
  · rw [ParseError.position, here]
    decide

end ConfigExpr
