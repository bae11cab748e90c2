import ConfigExpr.Command.Response
import ConfigExpr.Proofs.Classification
import Mathlib.Data.List.TakeWhile

/-! The output of the program, given back to it, by whatever arguments. `ofArguments_arguments` says
that the reader of arguments gives back the command that was written as arguments, so there is a
command line for each of its settings. -/
namespace ConfigExpr

/-- An input that the arguments can name. One dash alone would name the standard input. -/
def Input.Named : Input → Prop
  | .inline text => ¬ Draft.looksLikeOption text
  | .standardInput => True
  | .file path => path ≠ "" ∧ path ≠ "-"

def Input.arguments : Input → List String
  | .inline text => [text]
  | .standardInput => [CommandOption.file.longName ++ "=-"]
  | .file path => [CommandOption.file.longName ++ "=" ++ path]

def Format.name : Format → String
  | .json => "json"
  | .sexp => "sexp"
  | .text => "text"

def Layout.arguments : Layout → List String
  | .compact => []
  | .indented => [CommandOption.pretty.longName]

def Command.arguments (command : Command) : List String :=
  (CommandOption.format.longName ++ "=" ++ command.format.name) ::
    (CommandOption.maxDepth.longName ++ "=" ++ toString command.options.maxDepth) ::
    (command.layout.arguments ++
      ((if command.asValue then [CommandOption.value.longName] else []) ++
        command.input.arguments))

@[simp] theorem Format.ofName?_name (format : Format) :
    Format.ofName? format.name = some format := by
  cases format <;> rfl

theorem readDepth?_toString {n : Nat} (h : n < countBound) : readDepth? (toString n) = some n := by
  have digits : isNumber (Nat.toDigits 10 n) := by
    simp only [isNumber, Bool.and_eq_true, Bool.not_eq_true', List.isEmpty_eq_false_iff,
      List.all_eq_true]
    exact ⟨Nat.toDigits_ne_nil, fun c hc => Nat.isDigit_of_mem_toDigits (by decide) (by decide) hc⟩
  have text : (toString n).toList = Nat.toDigits 10 n := by simp
  unfold readDepth?
  rw [text]
  split
  · next r plus =>
    rw [plus] at digits
    simp [isNumber] at digits
  · rw [if_pos digits, Nat.ofDigitChars_ten_toDigits, if_pos h]

theorem CommandOption.exists_word (option : CommandOption) :
    ∃ word, option.longName.toList = '-' :: '-' :: word ∧ (∀ c ∈ word, (c != '=') = true) ∧
      ofLong? (String.ofList word) = some option := by
  cases option with
  | file => exact ⟨"file".toList, rfl, by simp, rfl⟩
  | format => exact ⟨"format".toList, rfl, by simp, rfl⟩
  | maxDepth => exact ⟨"max-depth".toList, rfl, by simp, rfl⟩
  | pretty => exact ⟨"pretty".toList, rfl, by simp, rfl⟩
  | value => exact ⟨"value".toList, rfl, by simp, rfl⟩
  | verbose => exact ⟨"verbose".toList, rfl, by simp, rfl⟩
  | help => exact ⟨"help".toList, rfl, by simp, rfl⟩
  | version => exact ⟨"version".toList, rfl, by simp, rfl⟩

namespace Draft

variable {draft next : Draft} {option : CommandOption} {value text : String} {word : List Char}

theorem read_long (rest : List String) (name : text.toList = '-' :: '-' :: word) (hw : word ≠ [])
    (long : draft.readLong word = .ok (next, none)) :
    draft.read (text :: rest) = next.read rest := by
  obtain ⟨c, word, rfl⟩ := List.exists_cons_of_ne_nil hw
  rw [read]
  simp only [name, if_pos, long]
  rfl

theorem read_value (rest : List String) (set : draft.set option value = .ok next) :
    draft.read ((option.longName ++ "=" ++ value) :: rest) = next.read rest := by
  obtain ⟨word, name, plain, known⟩ := option.exists_word
  have long : draft.readLong (word ++ '=' :: value.toList) = .ok (next, none) := by
    unfold readLong
    rw [List.takeWhile_append_of_pos plain, List.dropWhile_append_of_pos plain,
      List.takeWhile_cons_of_neg (by simp), List.dropWhile_cons_of_neg (by simp), List.append_nil]
    simp only [String.ofList_toList, known, set]
    rfl
  exact read_long rest (by simp [name]) (by simp) long

theorem read_switch (rest : List String) (on : draft.turnOn option = .ok next) :
    draft.read (option.longName :: rest) = next.read rest := by
  obtain ⟨word, name, plain, known⟩ := option.exists_word
  have alone : option.takesValue = false := by
    cases option <;> simp [turnOn, CommandOption.takesValue] at on ⊢
  have long : draft.readLong word = .ok (next, none) := by
    unfold readLong
    rw [List.takeWhile_eq_self_iff.mpr plain, List.dropWhile_eq_nil_iff.mpr plain]
    simp only [known, alone, on]
    rfl
  refine read_long rest name ?_ long
  rintro rfl
  simp [CommandOption.ofLong?] at known

theorem read_expression (plain : ¬ looksLikeOption text) (free : draft.expression = none) :
    draft.read [text] = .ok { draft with expression := some text } := by
  rw [read]
  split
  · next dashes => exact absurd (by simp [looksLikeOption, dashes]) plain
  · next c r _ dash => exact absurd (by simp [looksLikeOption, dash]) plain
  · simp only [addExpression, free]
    rfl

end Draft

def Draft.give (draft : Draft) : Input → Draft
  | .inline text => { draft with expression := some text }
  | .standardInput => { draft with file := some "-" }
  | .file path => { draft with file := some path }

namespace Draft

variable {draft : Draft}

theorem read_layout (layout : Layout) (rest : List String) (off : draft.pretty = false) :
    draft.read (layout.arguments ++ rest) =
      ({ draft with pretty := decide (layout = .indented) } : Draft).read rest := by
  cases layout with
  | compact =>
    obtain ⟨_, _, _, _, _, _, _⟩ := draft
    obtain rfl := off
    rfl
  | indented => exact read_switch rest (if_neg (by simp [off]))

theorem read_asValue (asValue : Bool) (rest : List String) (off : draft.value = false) :
    draft.read ((if asValue then [CommandOption.value.longName] else []) ++ rest) =
      ({ draft with value := asValue } : Draft).read rest := by
  cases asValue with
  | false =>
    obtain ⟨_, _, _, _, _, _, _⟩ := draft
    obtain rfl := off
    rfl
  | true => exact read_switch rest (if_neg (by simp [off]))

theorem read_input {input : Input} (named : input.Named) (unasked : draft.expression = none)
    (unread : draft.file = none) : draft.read input.arguments = .ok (draft.give input) := by
  cases input with
  | inline text => exact read_expression named unasked
  | standardInput =>
    have set : draft.set .file "-" = .ok (draft.give .standardInput) := by
      simp [Draft.set, give, unread]
    exact read_value [] set
  | file path =>
    have set : draft.set .file path = .ok (draft.give (.file path)) := by
      simp [Draft.set, give, unread, named.1]
    exact read_value [] set

theorem input_give {input : Input} (named : input.Named) (unasked : draft.expression = none)
    (unread : draft.file = none) : (draft.give input).input = .ok input := by
  cases input with
  | inline text => simp [Draft.input, give, unread]
  | standardInput => simp [Draft.input, give, unasked]
  | file path => simp [Draft.input, give, unasked, named.2]

end Draft

/-- Every command that arguments can name has a command line. -/
theorem Command.ofArguments_arguments (command : Command) (named : command.input.Named)
    (range : command.options.maxDepth < countBound) :
    Command.ofArguments command.arguments = .ok command := by
  obtain ⟨input, format, layout, asValue, ⟨maxDepth⟩⟩ := command
  let written : Draft := { format := some format, maxDepth := some maxDepth }
  let settings : Draft := { written with pretty := decide (layout = .indented), value := asValue }
  have format_set : Draft.set {} .format format.name = .ok { format := some format } := by
    simp [Draft.set]
  have depth_set : Draft.set { format := some format } .maxDepth (toString maxDepth) =
      .ok written := by
    simp only [Draft.set, readDepth?_toString range]
    rfl
  have read : Draft.read {} (arguments ⟨input, format, layout, asValue, ⟨maxDepth⟩⟩) =
      .ok (settings.give input) := by
    rw [arguments, Draft.read_value _ format_set, Draft.read_value _ depth_set,
      Draft.read_layout _ _ rfl, Draft.read_asValue _ _ rfl]
    exact Draft.read_input named rfl rfl
  have given : (settings.give input).input = .ok input := Draft.input_give named rfl rfl
  have kept : (settings.give input).format = some format ∧
      (settings.give input).maxDepth = some maxDepth ∧
      (settings.give input).pretty = decide (layout = .indented) ∧
      (settings.give input).value = asValue := by
    cases input <;> exact ⟨rfl, rfl, rfl, rfl⟩
  obtain ⟨format_eq, depth_eq, pretty_eq, value_eq⟩ := kept
  have layout_eq :
      (if decide (layout = .indented) then Layout.indented else .compact) = layout := by
    cases layout <;> rfl
  simp only [ofArguments, read, bind, Except.bind, given, format_eq, depth_eq, pretty_eq, value_eq,
    layout_eq]
  rfl

/-! What the program prints for an expression in the text format, given back to it.
`respond_returned` says that no output of any format changes by that, whatever way the text
takes. -/

def Command.Yields (command : Command) (content : Except ReadFailure ByteArray)
    (tree : Expression) : Prop :=
  ∃ text, command.input.text content = .ok text ∧ command.parse text = .ok (.expression tree)

/-- The ways in which an output comes back as an input: as an argument without the line break at its
end, or with all its bytes from a file or from the standard input. -/
inductive Returned (output : String) : Input → Except ReadFailure ByteArray → Prop where
  | inline {text content} : output = text ++ "\n" → Returned output (.inline text) content
  | standardInput : Returned output .standardInput (.ok output.toUTF8)
  | file {path} : path ≠ "" → path ≠ "-" → Returned output (.file path) (.ok output.toUTF8)

theorem fromUTF8?_toUTF8 (text : String) : String.fromUTF8? text.toUTF8 = some text :=
  dif_pos text.isValidUTF8

theorem ConfigValue.map_expression_eq_ok_iff {result : Except ParseError Expression}
    {tree : Expression} : result.map expression = .ok (.expression tree) ↔ result = .ok tree := by
  cases result <;> simp [Except.map]

theorem ConfigValue.expression_of_parse {options : Options} {text : String} {tree : Expression}
    (h : ConfigValue.parse options text = .ok (.expression tree)) :
    Expression.parse options text = .ok tree := by
  unfold ConfigValue.parse at h
  split at h
  · simp at h
  · split at h
    · exact map_expression_eq_ok_iff.mp h
    · simp at h

namespace Command

variable {command : Command} {content : Except ReadFailure ByteArray} {tree : Expression}

theorem expression_of_parse {text : String} (h : command.parse text = .ok (.expression tree)) :
    Expression.parse command.options text = .ok tree := by
  unfold Command.parse at h
  split at h
  · exact ConfigValue.expression_of_parse h
  · exact ConfigValue.map_expression_eq_ok_iff.mp h

theorem parse_canonical (valid : tree.isValid) (hd : tree.depth ≤ command.options.maxDepth) :
    command.parse tree.source = .ok (.expression tree) := by
  unfold Command.parse
  split
  · exact ConfigValue.parse_canonical valid hd
  · exact ConfigValue.map_expression_eq_ok_iff.mpr (parse_source_of_isValid valid hd)

theorem respond_of_yields (yields : command.Yields content tree) :
    command.respond content =
      ⟨0, (ConfigValue.expression tree).render command.format command.layout ++ "\n", ""⟩ := by
  obtain ⟨text, read, parsed⟩ := yields
  simp only [respond, read, parsed]

/-- In what form an expression is printed does not matter for there being one. -/
theorem Yields.printed (yields : command.Yields content tree) (format : Format)
    (layout : Layout) : Yields { command with format := format, layout := layout } content tree :=
  yields

end Command

/-- Whatever way the canonical source takes, the line break behind it is gone when it is read. -/
theorem Returned.text_eq {tree : Expression} {input : Input}
    {content : Except ReadFailure ByteArray} (h : Returned (tree.source ++ "\n") input content) :
    input.text content = .ok tree.source := by
  have trimmed : trimText (tree.source ++ "\n") = tree.source :=
    trimText_source_append tree (by simp [Grammar.Blanks, isBlank])
  cases h with
  | inline whole =>
    rw [(String.append_left_inj "\n").mp whole]
    rfl
  | standardInput =>
    simp only [Input.text, bind, Except.bind, fromUTF8?_toUTF8, trimmed]
    rfl
  | file _ _ =>
    simp only [Input.text, bind, Except.bind, fromUTF8?_toUTF8, trimmed]
    rfl

theorem Returned.named {tree : Expression} {input : Input} {content : Except ReadFailure ByteArray}
    (h : Returned (tree.source ++ "\n") input content) : input.Named := by
  cases h with
  | inline whole =>
    rw [← (String.append_left_inj "\n").mp whole]
    simp [Input.Named, Draft.looksLikeOption, Expression.source]
  | standardInput => trivial
  | file nonempty given => exact ⟨nonempty, given⟩

/-- Where a command has an expression to print, what it prints in the text format can be given back
to the program in each of the ways, and under the same limit the answer is then the one that the
command itself gives in the same format: the expression as it is printed there, and no error. -/
theorem respond_returned (command again : Command) (content content' : Except ReadFailure ByteArray)
    (tree : Expression) (yields : command.Yields content tree)
    (options : again.options = command.options)
    (returned : Returned ({ command with format := .text }.respond content).output again.input
      content') :
    (command.options.maxDepth < countBound →
      Command.ofArguments again.arguments = .ok again) ∧
    again.respond content' =
      { command with format := again.format, layout := again.layout }.respond content ∧
    (again.respond content').exitCode = 0 ∧
    again.respond content' =
      ⟨0, (ConfigValue.expression tree).render again.format again.layout ++ "\n", ""⟩ := by
  have valid : tree.isValid := by
    obtain ⟨text, -, parsed⟩ := yields
    exact Expression.isValid_of_parse (Command.expression_of_parse parsed)
  have depth : tree.depth ≤ again.options.maxDepth := by
    obtain ⟨text, -, parsed⟩ := yields
    exact options ▸ depth_le_of_parse (Command.expression_of_parse parsed)
  rw [Command.respond_of_yields (yields.printed .text command.layout)] at returned
  have again_yields : again.Yields content' tree :=
    ⟨tree.source, returned.text_eq, Command.parse_canonical valid depth⟩
  have answer := Command.respond_of_yields again_yields
  refine ⟨?_, ?_, ?_, answer⟩
  · intro range
    exact Command.ofArguments_arguments again returned.named (options ▸ range)
  · rw [answer, Command.respond_of_yields (yields.printed again.format again.layout)]
  · rw [answer]

/-- A value on the standard input, with blanks inside and outside a literal that holds a bracket and
a line break. It comes back as an argument, is no longer taken for a value, and is asked for as
JSON. -/
theorem respond_returned_spaced :
    let command : Command := ⟨.standardInput, .sexp, .compact, true, ⟨2⟩⟩
    let content : Except ReadFailure ByteArray := .ok " \t[ f ( ' [\n',g() ) ]\n".toUTF8
    let again : Command := ⟨.inline "[f(' [\n', g())]", .json, .indented, false, ⟨2⟩⟩
    let tree : Expression := ⟨⟨"f", [.string " [\n", .call "g" []]⟩, []⟩
    Command.ofArguments
        ["--format=json", "--max-depth=2", "--pretty", "[f(' [\n', g())]"] = .ok again ∧
      again.respond (.ok .empty) =
        { command with format := .json, layout := .indented }.respond content ∧
      (again.respond (.ok .empty)).exitCode = 0 ∧
      again.respond (.ok .empty) = ⟨0, tree.toJson.render .indented ++ "\n", ""⟩ := by
  intro command content again tree
  have read : command.input.text content = .ok "[ f ( ' [\n',g() ) ]" := by
    simp only [command, content, Input.text, bind, Except.bind, fromUTF8?_toUTF8]
    rfl
  have parsed : Expression.parse ⟨2⟩ "[ f ( ' [\n',g() ) ]" = .ok tree :=
    Reader.run_eq_of_runWithin? 20 rfl
  have brackets : InBrackets "[ f ( ' [\n',g() ) ]".toList := isExpressionText_iff.mp (by decide)
  have yields : command.Yields content tree := by
    refine ⟨_, read, ?_⟩
    exact (ConfigValue.parse_of_inBrackets brackets).trans
      (ConfigValue.map_expression_eq_ok_iff.mpr parsed)
  have printed := Command.respond_of_yields (yields.printed .text command.layout)
  have returned : Returned ({ command with format := .text }.respond content).output again.input
      (.ok .empty) := by
    rw [printed]
    exact .inline (by decide)
  obtain ⟨named, same, success, shown⟩ :=
    respond_returned command again content _ tree yields rfl returned
  have line : again.arguments =
      ["--format=json", "--max-depth=2", "--pretty", "[f(' [\n', g())]"] := by decide
  exact ⟨line ▸ named (by decide), same, success, shown⟩

end ConfigExpr
