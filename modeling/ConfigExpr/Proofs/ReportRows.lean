import ConfigExpr.Command.Response
import ConfigExpr.Proofs.ErrorTruth
import ConfigExpr.Proofs.PrefixCode
import Mathlib.Data.List.Induction

/-! The rows of a report and the place in the source that they show. A place comes from a scan up to
its position, and lines are the pieces between line feeds. `Place.line_of` and
`Place.lineStart_add_column` say that both see the same line. -/
namespace ConfigExpr

def joinLines (lines : List (List Char)) : List Char := lines.flatMap (· ++ ['\n'])

def lineStart (lines : List (List Char)) (number : Nat) : Nat :=
  (joinLines (lines.take number)).length

section

variable {lines : List (List Char)}

theorem joinLines_append (lines more : List (List Char)) :
    joinLines (lines ++ more) = joinLines lines ++ joinLines more :=
  List.flatMap_append

theorem joinLines_singleton (line : List Char) : joinLines [line] = line ++ ['\n'] :=
  List.flatMap_singleton ..

theorem exists_eq_joinLines_append (text : List Char) : ∃ lines rest,
    text = joinLines lines ++ rest ∧ (∀ line ∈ lines, '\n' ∉ line) ∧ '\n' ∉ rest := by
  induction text using List.reverseRecOn with
  | nil => exact ⟨[], [], rfl, by simp, by simp⟩
  | append_singleton text c ih =>
    obtain ⟨lines, rest, rfl, free, within⟩ := ih
    by_cases ends : c = '\n'
    · refine ⟨lines ++ [rest], [], ?_, ?_, by simp⟩
      · rw [joinLines_append, joinLines_singleton, ends, List.append_nil, List.append_assoc]
      · intro line mem
        rcases List.mem_append.mp mem with mem | mem
        · exact free line mem
        · exact List.mem_singleton.mp mem ▸ within
    · refine ⟨lines, rest ++ [c], by rw [List.append_assoc], free, ?_⟩
      simpa [within] using Ne.symm ends

theorem splitOn_joinLines_append (free : ∀ line ∈ lines, '\n' ∉ line) (r : List Char) :
    (joinLines lines ++ r).splitOn '\n' = lines ++ r.splitOn '\n' := by
  induction lines with
  | nil => rfl
  | cons line lines ih =>
    have shape : joinLines (line :: lines) ++ r = line ++ '\n' :: (joinLines lines ++ r) := by
      simp [joinLines]
    rw [shape, List.splitOn_append_cons_self_of_not_mem (free line List.mem_cons_self),
      ih fun other mem => free other (List.mem_cons_of_mem line mem), List.cons_append]

theorem count_joinLines (free : ∀ line ∈ lines, '\n' ∉ line) :
    (joinLines lines).count '\n' = lines.length := by
  induction lines with
  | nil => rfl
  | cons line lines ih =>
    have shape : joinLines (line :: lines) = line ++ '\n' :: joinLines lines := by
      simp [joinLines]
    rw [shape, List.count_append, List.count_eq_zero_of_not_mem (free line List.mem_cons_self),
      List.count_cons_self, ih fun other mem => free other (List.mem_cons_of_mem line mem),
      Nat.zero_add, List.length_cons]

theorem takeWhile_reverse_joinLines (lines : List (List Char)) :
    (joinLines lines).reverse.takeWhile (· != '\n') = [] := by
  cases lines using List.reverseRecOn with
  | nil => rfl
  | append_singleton lines line =>
    rw [joinLines_append, joinLines_singleton]
    simp

theorem takeWhile_of_no_lineFeed {rest : List Char} (within : '\n' ∉ rest) (r : List Char) :
    (rest ++ r).takeWhile (· != '\n') = rest ++ r.takeWhile (· != '\n') := by
  refine List.takeWhile_append_of_pos ?_
  intro c mem
  have other : c ≠ '\n' := by
    rintro rfl
    exact within mem
  exact bne_iff_ne.mpr other

theorem head?_splitOn_lineFeed (text : List Char) :
    (text.splitOn '\n').head? = some (text.takeWhile (· != '\n')) := by
  by_cases mem : '\n' ∈ text
  · obtain ⟨line, r, rfl, within⟩ := List.eq_append_cons_of_mem mem
    rw [List.splitOn_append_cons_self_of_not_mem within, takeWhile_of_no_lineFeed within]
    simp
  · have whole := takeWhile_of_no_lineFeed mem []
    rw [List.append_nil] at whole
    rw [List.splitOn_eq_singleton mem, whole]
    simp

end

/-- Up to the position a source is some complete lines and the start of one more. -/
structure LineSplit (source : List Char) (position : Nat) (lines : List (List Char))
    (rest : List Char) : Prop where
  before : source.take position = joinLines lines ++ rest
  free : ∀ line ∈ lines, '\n' ∉ line
  within : '\n' ∉ rest

theorem exists_lineSplit (source : List Char) (position : Nat) :
    ∃ lines rest, LineSplit source position lines rest := by
  obtain ⟨lines, rest, before, free, within⟩ := exists_eq_joinLines_append (source.take position)
  exact ⟨lines, rest, before, free, within⟩

namespace LineSplit

variable {source rest : List Char} {position : Nat} {lines : List (List Char)}
  (split : LineSplit source position lines rest)

include split

theorem count_eq : (source.take position).count '\n' = lines.length := by
  rw [split.before, List.count_append, count_joinLines split.free,
    List.count_eq_zero_of_not_mem split.within, Nat.add_zero]

theorem source_eq : source = joinLines lines ++ (rest ++ source.drop position) := by
  rw [← List.append_assoc, ← split.before, List.take_append_drop]

theorem splitOn_eq :
    source.splitOn '\n' = lines ++ (rest ++ source.drop position).splitOn '\n' := by
  conv_lhs => rw [split.source_eq]
  exact splitOn_joinLines_append split.free _

theorem lineStart_eq : lineStart (source.splitOn '\n') lines.length = (joinLines lines).length := by
  rw [lineStart, split.splitOn_eq, List.take_left]

theorem length_le : (joinLines lines).length ≤ position := by
  have whole := congrArg List.length split.before
  rw [List.length_take, List.length_append] at whole
  omega

/-- Looking back from the position, the complete lines are out of sight. -/
theorem lastLineStart_eq : lastLineStart (source.take position) = (joinLines lines).length := by
  have back : (source.take position).reverse.takeWhile (· != '\n') = rest.reverse := by
    rw [split.before, List.reverse_append,
      takeWhile_of_no_lineFeed (fun mem => split.within (List.mem_reverse.mp mem)),
      takeWhile_reverse_joinLines, List.append_nil]
  rw [lastLineStart, back, split.before, List.length_append, List.length_reverse,
    Nat.add_sub_cancel]

theorem place_eq : Place.of source position = ⟨lines.length + 1,
    rest ++ (source.drop position).takeWhile (· != '\n'), position - (joinLines lines).length⟩ := by
  have behind : source.drop (joinLines lines).length = rest ++ source.drop position := by
    conv_lhs => rw [split.source_eq]
    exact List.drop_left
  rw [Place.of_eq, split.lastLineStart_eq, behind, split.count_eq,
    takeWhile_of_no_lineFeed split.within]

end LineSplit

namespace Place

variable (source : List Char) (position : Nat)

theorem lineNumber_of :
    (Place.of source position).lineNumber = (source.take position).count '\n' + 1 := by
  rw [Place.of_eq]

theorem line_of : (source.splitOn '\n')[(source.take position).count '\n']? =
    some (Place.of source position).line := by
  obtain ⟨lines, rest, split⟩ := exists_lineSplit source position
  rw [split.count_eq, split.splitOn_eq, split.place_eq, List.getElem?_append_right (Nat.le_refl _),
    Nat.sub_self, ← List.head?_eq_getElem?, head?_splitOn_lineFeed,
    takeWhile_of_no_lineFeed split.within]

/-- The column counts from the start of the line, so nothing is taken from a smaller number. -/
theorem lineStart_add_column :
    lineStart (source.splitOn '\n') ((source.take position).count '\n') +
      (Place.of source position).column = position := by
  obtain ⟨lines, rest, split⟩ := exists_lineSplit source position
  rw [split.count_eq, split.lineStart_eq, split.place_eq]
  exact Nat.add_sub_cancel' split.length_le

theorem lineFeed_not_mem_line : '\n' ∉ (Place.of source position).line := by
  intro mem
  have other := List.all_eq_true.mp List.all_takeWhile _ mem
  exact absurd other (by decide)

/-- At a character that ends no line, the place is in the line and shows the character. -/
theorem of_inside (inside : position ≤ source.length) (within : source[position]? ≠ some '\n') :
    (Place.of source position).column ≤ (Place.of source position).line.length ∧
      (Place.of source position).line[(Place.of source position).column]? = source[position]? := by
  obtain ⟨lines, rest, split⟩ := exists_lineSplit source position
  have whole := congrArg List.length split.before
  rw [List.length_take, List.length_append, Nat.min_eq_left inside] at whole
  have column : position - (joinLines lines).length = rest.length := by omega
  rw [split.place_eq, column]
  refine ⟨by simp, ?_⟩
  rw [List.getElem?_append_right (Nat.le_refl _), Nat.sub_self, ← List.head?_eq_getElem?,
    ← List.head?_drop]
  rw [← List.head?_drop] at within
  cases behind : source.drop position with
  | nil => rfl
  | cons c r =>
    rw [behind] at within
    have other : c ≠ '\n' := fun h => within (congrArg some h)
    simp [other]

end Place

theorem length_caretPadding (text : List Char) (column : Nat) :
    (caretPadding text column).length = min column text.length := by
  simp [caretPadding]

theorem caretPadding_getElem? {text : List Char} {column i : Nat}
    (inside : i < (caretPadding text column).length) :
    (caretPadding text column)[i]? = some (if text[i]? = some '\t' then '\t' else ' ') := by
  rw [length_caretPadding] at inside
  have there : i < text.length := by omega
  rw [caretPadding, List.getElem?_map, List.getElem?_take_of_lt (by omega),
    List.getElem?_eq_getElem there]
  simp

/-! The rows of a report. No message holds a line feed, whatever it quotes, so a report has three
rows: the message, the line of the source that the position is in, and the caret. An error of the
source itself never points at a line feed. -/

def OneLine (text : String) : Prop := '\n' ∉ text.toList

instance (text : String) : Decidable (OneLine text) := inferInstanceAs (Decidable (¬ _))

theorem OneLine.append {s t : String} (hs : OneLine s) (ht : OneLine t) : OneLine (s ++ t) := by
  rw [OneLine, String.toList_append, List.mem_append, not_or]
  exact ⟨hs, ht⟩

theorem oneLine_toString (n : Nat) : OneLine (toString n) := by
  rw [OneLine, Nat.toString_eq_repr, Nat.repr_eq_ofList_toDigits, String.toList_ofList]
  intro mem
  exact absurd (Nat.isDigit_of_mem_toDigits (by decide) (by decide) mem) (by decide)

/-! Every part of a message is on one line. -/

theorem oneLine_label (kind : TokenKind) : OneLine kind.label := by
  have kinds : ∀ kind ∈ TokenKind.all, OneLine kind.label := by decide
  exact kinds kind kind.mem_all

theorem oneLine_joinLabels : ∀ kinds : List TokenKind, OneLine (joinLabels kinds)
  | [] => (by decide : OneLine "nothing")
  | [kind] => oneLine_label kind
  | [kind, last] =>
    ((oneLine_label kind).append (by decide : OneLine " or ")).append (oneLine_label last)
  | kind :: next :: third :: r =>
    ((oneLine_label kind).append (by decide : OneLine ", ")).append
      (oneLine_joinLabels (next :: third :: r))

theorem lineFeed_not_mem_displayChar (mark c : Char) : '\n' ∉ displayChar mark c := by
  unfold displayChar
  split_ifs with h₀ h₁ h₂ h₃ h₄ h₅
  · decide
  · decide
  · decide
  · decide
  · simpa using Ne.symm h₃
  · simpa using Ne.symm h₃
  · have digits := not_mem_toDigits (fun _ => (Nat.digitChar_ne '\n' (by decide)).symm) c.toNat
    simpa using digits

theorem oneLine_displaySingle (c : Char) : OneLine (displaySingle c) := by
  have inner := lineFeed_not_mem_displayChar '\x27' c
  simpa [OneLine, displaySingle, displayBetween] using inner

theorem oneLine_describe : ∀ found : Found, OneLine found.describe
  | .token kind => oneLine_label kind
  | .character c => (by decide : OneLine "character ").append (oneLine_displaySingle c)
  | .endOfInput => (by decide : OneLine "end of input")

theorem ParseError.oneLine_message : ∀ error : ParseError, OneLine error.message
  | .lexical position found expected =>
    have words : OneLine "lexical error at position " ∧ OneLine ": unexpected " ∧ OneLine "; " ∧
      OneLine "expected " := by decide
    have front := ((words.1.append (oneLine_toString position)).append words.2.1).append
      (oneLine_describe found)
    (front.append words.2.2.1).append (words.2.2.2.append (oneLine_joinLabels expected))
  | .unexpectedToken position found _ expected =>
    have words : OneLine "unexpected " ∧ OneLine " at position " ∧ OneLine "; expected " := by
      decide
    have front := ((words.1.append (oneLine_label found)).append words.2.1).append
      (oneLine_toString position)
    (front.append words.2.2).append (oneLine_joinLabels expected)
  | .unexpectedEndOfInput position expected =>
    have words : OneLine "unexpected end of input at position " ∧ OneLine "; expected " := by decide
    ((words.1.append (oneLine_toString position)).append words.2).append
      (oneLine_joinLabels expected)
  | .nestingTooDeep position limit =>
    have words : OneLine "function calls nested deeper than " ∧ OneLine " at position " := by decide
    ((words.1.append (oneLine_toString limit)).append words.2).append (oneLine_toString position)

theorem oneLine_padLeft (width : Nat) {text : String} (h : OneLine text) :
    OneLine (padLeft width text) := by
  refine OneLine.append ?_ h
  simp [OneLine, List.mem_replicate]

theorem oneLine_caretPadding (line : List Char) (column : Nat) :
    OneLine (String.ofList (caretPadding line column)) := by
  rw [OneLine, String.toList_ofList, caretPadding, List.mem_map]
  rintro ⟨c, -, feed⟩
  split at feed <;> simp at feed

theorem splitOn_three_rows {a b c : String} (ha : OneLine a) (hb : OneLine b) (hc : OneLine c) :
    (a ++ "\n" ++ b ++ "\n" ++ c).toList.splitOn '\n' = [a.toList, b.toList, c.toList] := by
  have shape : (a ++ "\n" ++ b ++ "\n" ++ c).toList =
      a.toList ++ '\n' :: (b.toList ++ '\n' :: c.toList) := by
    simp
  rw [shape, List.splitOn_append_cons_self_of_not_mem ha,
    List.splitOn_append_cons_self_of_not_mem hb, List.splitOn_eq_singleton hc]

theorem ParseError.splitOn_report (source : String) (error : ParseError) :
    let place := Place.of source.toList error.position
    (error.report source).toList.splitOn '\n' =
      [("error: " ++ error.message).toList,
        (padLeft 4 (toString place.lineNumber) ++ " | " ++ String.ofList place.line).toList,
        ("     | " ++ String.ofList (caretPadding place.line place.column) ++ "^").toList] := by
  intro place
  have words : OneLine "error: " ∧ OneLine " | " ∧ OneLine "     | " ∧ OneLine "^" := by decide
  have line : OneLine (String.ofList place.line) := by
    rw [OneLine, String.toList_ofList]
    exact Place.lineFeed_not_mem_line _ _
  have first := words.1.append error.oneLine_message
  have second := ((oneLine_padLeft 4 (oneLine_toString place.lineNumber)).append
    words.2.1).append line
  have third := (words.2.2.1.append (oneLine_caretPadding place.line place.column)).append
    words.2.2.2
  have shape : error.report source = "error: " ++ error.message ++ "\n" ++
      padLeft 4 (toString place.lineNumber) ++ " | " ++ String.ofList place.line ++ "\n" ++
      "     | " ++ String.ofList (caretPadding place.line place.column) ++ "^" := rfl
  rw [← splitOn_three_rows first second third, shape]
  simp only [String.append_assoc]

/-! An error of the source points into it, and at no line feed. -/

theorem points_of_spells {source text : List Char} {position : Nat} {kind : TokenKind}
    (spells : Context.topLevel.Spells kind text) (here : text <+: source.drop position) :
    position ≤ source.length ∧ source[position]? ≠ some '\n' := by
  obtain ⟨r, hr⟩ := here
  constructor
  · by_contra beyond
    rw [List.drop_eq_nil_of_le (by omega), List.append_eq_nil_iff] at hr
    exact spells.ne_nil hr.1
  · rw [← List.head?_drop, ← hr]
    intro feed
    exact spells.atToken r (by simp) '\n' feed rfl

theorem ErrorCase.Holds.points {source : List Char} {limit : Nat} {errorCase : ErrorCase}
    {error : ParseError} (holds : errorCase.Holds source limit error) :
    error.position ≤ source.length ∧ source[error.position]? ≠ some '\n' := by
  unfold Holds at holds
  split at holds
  · obtain ⟨inside, there, other⟩ := holds
    refine ⟨Nat.le_of_lt inside, ?_⟩
    rw [ParseError.position, there]
    rintro ⟨⟩
    exact other rfl
  · obtain ⟨rfl, -⟩ := holds
    simp [ParseError.position]
  · obtain ⟨-, here, kinds, -⟩ := holds
    exact points_of_spells ((kinds _).mpr rfl) here
  · obtain ⟨rfl, -⟩ := holds
    simp [ParseError.position]
  · obtain ⟨-, name⟩ := holds
    exact points_of_spells (spells_functionName (.inl rfl) name) (List.takeWhile_prefix _)
  · contradiction

/-- The rows of a report, and the line and the column that they show, for every position. A position
beyond the source is in its last line. An error of the source itself is in its line or at the end of
it, and the line shows at the column the character that the error is about. -/
theorem report_shows_place (source : String) (error : ParseError) :
    let text := source.toList
    let lines := text.splitOn '\n'
    let number := (text.take error.position).count '\n'
    let place := Place.of text error.position
    let padding := caretPadding place.line place.column
    (error.report source).toList.splitOn '\n' =
      [("error: " ++ error.message).toList,
        (padLeft 4 (toString (number + 1)) ++ " | " ++ String.ofList place.line).toList,
        ("     | " ++ String.ofList padding ++ "^").toList] ∧
    lines[number]? = some place.line ∧
    lineStart lines number + place.column = error.position ∧
    padding.length = min place.column place.line.length ∧
    (∀ i < padding.length,
      padding[i]? = some (if place.line[i]? = some '\t' then '\t' else ' ')) ∧
    ∀ limit, Expression.parse ⟨limit⟩ source = .error error →
      place.column ≤ place.line.length ∧ place.line[place.column]? = text[error.position]? := by
  intro text lines number place padding
  have rows := error.splitOn_report source
  simp only [Place.lineNumber_of] at rows
  refine ⟨rows, Place.line_of _ _, Place.lineStart_add_column _ _,
    length_caretPadding _ _, fun i => caretPadding_getElem?, ?_⟩
  intro limit h
  obtain ⟨tokens, reader, reads, done⟩ := Reader.run_eq_iff.mp h
  obtain ⟨errorCase, holds⟩ := exists_holds_of_reads reads (Reader.step_eq_error_iff.mp done)
  obtain ⟨inside, within⟩ := holds.points
  exact Place.of_inside _ _ inside within

def strayDollar : ParseError :=
  .lexical 7 (.character '$') [.functionName, .quote, .number, .trueWord, .falseWord]

theorem report_shows_place_second_line :
    let text := "[f(1,\n\t$)]".toList
    let place := Place.of text strayDollar.position
    let padding := caretPadding place.line place.column
    Expression.parse ⟨1⟩ "[f(1,\n\t$)]" = .error strayDollar ∧ 0 < padding.length ∧
      padding[0]? = some '\t' ∧ place.column ≤ place.line.length ∧
      place.line[place.column]? = text[strayDollar.position]? := by
  have stray : Expression.parse ⟨1⟩ "[f(1,\n\t$)]" = .error strayDollar :=
    Reader.run_eq_iff.mpr ⟨_, _, .token rfl rfl (.token rfl rfl (.token rfl rfl
      (.token rfl rfl (.token rfl rfl .here)))), rfl⟩
  obtain ⟨-, -, -, -, padding, shown⟩ := report_shows_place "[f(1,\n\t$)]" strayDollar
  exact ⟨stray, by decide, padding 0 (by decide), shown 1 stray⟩

example : strayDollar.report "[f(1,\n\t$)]" =
    "error: lexical error at position 7: unexpected character '$'; expected function name, " ++
      "quote, number, 'true' or 'false'\n   2 | \t$)]\n     | \t^" := by
  decide +kernel

end ConfigExpr
