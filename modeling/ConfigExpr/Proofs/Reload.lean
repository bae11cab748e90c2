import ConfigExpr.Proofs.Loading

/-! What is written as JSON reads as the same value again, for every type that has a JSON form. -/
namespace ConfigExpr

/-- A valid value reads back from its own form, and so does every value that was read from any. -/
structure Reloads {α : Type} (toJson : α → Json) (ofJson : Json → Loaded α) (Valid : α → Prop) :
    Prop where
  written : ∀ a, Valid a → ofJson (toJson a) = .ok a
  again : ∀ json a, ofJson json = .ok a → ofJson (toJson a) = .ok a

/-- It is enough that only valid values are read. -/
theorem Reloads.of_valid {α : Type} {toJson : α → Json} {ofJson : Json → Loaded α}
    {Valid : α → Prop} (written : ∀ a, Valid a → ofJson (toJson a) = .ok a)
    (valid : ∀ json a, ofJson json = .ok a → Valid a) : Reloads toJson ofJson Valid where
  written := written
  again json a h := written a (valid json a h)

/-- It is enough to know which forms are read, and that what is written is one of them. -/
theorem Reloads.of_shape {α : Type} {toJson : α → Json} {ofJson : Json → Loaded α}
    {Valid : α → Prop} {Shape : α → Json → Prop}
    (reads : ∀ {json a}, ofJson json = .ok a ↔ Shape a json ∧ Valid a)
    (shape : ∀ a, Shape a (toJson a)) : Reloads toJson ofJson Valid := by
  refine .of_valid ?_ ?_
  · intro a valid
    exact reads.mpr ⟨shape a, valid⟩
  · intro json a h
    exact (reads.mp h).2

/-! Leaves and trees. -/

theorem reloads_checked (valid : List Char → Bool) (node : String → InvalidNode) :
    Reloads Json.rawText (Json.toChecked valid node) fun text => valid text.toList :=
  .of_shape Json.toChecked_eq_ok_iff fun _ => .object (by simp)

theorem reloads_boolean : Reloads Json.boolValue Json.toBoolValue fun _ => True := by
  refine .of_valid ?_ (fun _ _ _ => trivial)
  intro value _
  exact Json.toBoolValue_eq_ok_iff.mpr (.object (by simp))

namespace Argument

mutual

theorem shape_toJson (reading : Reading) : ∀ x : Argument, x.Shape reading x.toJson
  | .call name arguments => by
    have list := listShape_listToJson .lenient arguments
    exact .call ⟨_, .text, .object rfl⟩ (.object (by simp [List.lookup_cons])) list
  | .string _ => .string ⟨_, .text, .object rfl⟩ (.object (by simp [List.lookup_cons]))
  | .number _ => .number ⟨_, .text, .object rfl⟩ (.object (by simp [List.lookup_cons]))
  | .boolean _ => .boolean ⟨_, .text, .object rfl⟩ (.object (by simp [List.lookup_cons]))

theorem listShape_listToJson (reading : Reading) :
    ∀ xs : List Argument, ListShape reading xs (listToJson xs)
  | [] => .nil
  | x :: r => .cons (shape_toJson reading x) (listShape_listToJson reading r)

end

theorem reloads (reading : Reading) :
    Reloads toJson (ofJson reading) fun x => x.isValid :=
  .of_shape ofJson_eq_ok_iff (shape_toJson reading)

end Argument

theorem Call.shape_toJson (call : Call) : call.Shape call.toJson :=
  ⟨_, .object (by simp [List.lookup_cons]), Argument.listShape_listToJson .strict call.arguments⟩

theorem Call.reloads : Reloads toJson ofJson fun call => call.isValid :=
  .of_shape ofJson_eq_ok_iff shape_toJson

theorem memberShapes_rawText (names : List String) :
    MemberShapes names (names.map Json.rawText) := by
  induction names with
  | nil => exact .nil
  | cons name r ih => exact .cons (.object (by simp)) ih

theorem Expression.shape_toJson (expression : Expression) : expression.Shape expression.toJson :=
  ⟨_, _, .object (by simp [List.lookup_cons]), expression.function.shape_toJson,
    memberShapes_rawText expression.members⟩

theorem Expression.reloads : Reloads toJson ofJson fun expression => expression.isValid :=
  .of_shape ofJson_eq_ok_iff shape_toJson

/-! Values. -/

namespace ConfigValue

def Valid : ConfigValue → Prop
  | .literal _ => True
  | .expression tree => tree.isValid

theorem valid_of_ofTagged {tag : String} {content : Json} {value : ConfigValue}
    (h : ofTagged tag content = .ok value) : value.Valid := by
  unfold ofTagged at h
  split at h
  · obtain ⟨text, -, rfl⟩ := Loaded.map_eq_ok_iff.mp h
    trivial
  · obtain ⟨tree, read, rfl⟩ := Loaded.map_eq_ok_iff.mp h
    exact (Expression.ofJson_eq_ok_iff.mp read).2
  · simp [malformed] at h

theorem valid_of_ofJson {json : Json} {value : ConfigValue} (h : ofJson json = .ok value) :
    value.Valid := by
  cases json with
  | object fields =>
    simp only [ofJson, Loaded.bind_eq_ok_iff] at h
    obtain ⟨_, -, tag, -, content, -, read⟩ := h
    exact valid_of_ofTagged read
  | array items =>
    rcases items with _ | ⟨tag, _ | ⟨content, extra⟩⟩
    · simp [ofJson, malformed] at h
    · simp [ofJson, malformed] at h
    · simp only [ofJson, Loaded.bind_eq_ok_iff] at h
      obtain ⟨name, -, read, tagged, h⟩ := h
      split at h
      · exact Except.ok.inj h ▸ valid_of_ofTagged tagged
      · simp [malformed] at h
  | _ => simp [ofJson, malformed] at h

theorem reloads : Reloads toJson ofJson Valid := by
  refine .of_valid ?_ fun _ _ => valid_of_ofJson
  intro value valid
  cases value with
  | literal text => rfl
  | expression tree =>
    have read := Expression.reloads.written tree valid
    change (Expression.ofJson tree.toJson).map ConfigValue.expression = _
    rw [read]
    rfl

end ConfigValue

/-! Errors and options. -/

theorem Json.toCount_eq_ok_iff {json : Json} {n : Nat} :
    json.toCount = .ok n ↔ json = .natural n ∧ n < countBound := by
  constructor
  · intro h
    cases json <;> simp only [toCount, malformed, reduceCtorEq] at h
    split at h
    · next below => exact Except.ok.inj h ▸ ⟨rfl, below⟩
    · simp at h
  · rintro ⟨rfl, below⟩
    exact if_pos below

theorem Json.toCount_natural {n : Nat} (h : n < countBound) : (natural n).toCount = .ok n :=
  if_pos h

theorem TokenKind.ofJson_toJson (reading : Reading) (kind : TokenKind) :
    ofJson reading kind.toJson = .ok kind := by
  simp only [ofJson, toJson, Json.constantName, Loaded.ok_bind, ofName?_name]
  rfl

theorem TokenKind.reloads (reading : Reading) :
    Reloads toJson (ofJson reading) fun _ => True :=
  .of_valid (fun kind _ => ofJson_toJson reading kind) fun _ _ _ => trivial

theorem ParseErrorKind.reloads : Reloads toJson ofJson fun _ => True := by
  refine .of_valid (fun kind _ => ?_) fun _ _ _ => trivial
  simp only [ofJson, toJson, Json.constantName, Loaded.ok_bind, ofName?_name]
  rfl

theorem Json.toChar_string (c : Char) : (Json.string c.toString).toChar = .ok c := by
  have single : c.toString.toList = [c] := by simp
  simp only [toChar, single]

theorem Found.ofJson_toJson (reading : Reading) (found : Found) :
    ofJson reading found.toJson = .ok found := by
  cases found with
  | token kind =>
    change (TokenKind.ofJson reading kind.toJson).map Found.token = _
    rw [TokenKind.ofJson_toJson]
    rfl
  | character c =>
    change (Json.string c.toString).toChar.map Found.character = _
    rw [Json.toChar_string]
    rfl
  | endOfInput => rfl

theorem Found.reloads (reading : Reading) : Reloads toJson (ofJson reading) fun _ => True :=
  .of_valid (fun found _ => ofJson_toJson reading found) fun _ _ _ => trivial

namespace ParseError

/-- The counts are those that a reader takes. No run has to produce the error. -/
def InRange : ParseError → Prop
  | lexical position _ _ | unexpectedToken position _ _ _ | unexpectedEndOfInput position _ =>
    position < countBound
  | nestingTooDeep position limit => position < countBound ∧ limit < countBound

theorem expectedOfJson_eq (kinds : List TokenKind) :
    expectedOfJson (.array (kinds.map TokenKind.toJson)) = .ok kinds := by
  change (kinds.map TokenKind.toJson).mapM (TokenKind.ofJson .lenient) = _
  rw [Loaded.mapM_eq_ok_iff, List.forall₂_map_left_iff, List.forall₂_same]
  intro kind _
  exact TokenKind.ofJson_toJson .lenient kind

theorem ofJson_toJson (error : ParseError) (range : error.InRange) :
    ofJson error.toJson = .ok error := by
  cases error with
  | lexical position found expected =>
    change (do
      pure (ParseError.lexical (← (Json.natural position).toCount)
        (← Found.ofJson .lenient found.toJson)
        (← expectedOfJson (.array (expected.map TokenKind.toJson))))) = _
    rw [Json.toCount_natural range, Found.ofJson_toJson, expectedOfJson_eq]
    rfl
  | unexpectedToken position found text expected =>
    change (do
      pure (ParseError.unexpectedToken (← (Json.natural position).toCount)
        (← TokenKind.ofJson .lenient found.toJson) (← (Json.string text).toText)
        (← expectedOfJson (.array (expected.map TokenKind.toJson))))) = _
    rw [Json.toCount_natural range, TokenKind.ofJson_toJson, expectedOfJson_eq]
    rfl
  | unexpectedEndOfInput position expected =>
    change (do
      pure (ParseError.unexpectedEndOfInput (← (Json.natural position).toCount)
        (← expectedOfJson (.array (expected.map TokenKind.toJson))))) = _
    rw [Json.toCount_natural range, expectedOfJson_eq]
    rfl
  | nestingTooDeep position limit =>
    change (do
      pure (ParseError.nestingTooDeep (← (Json.natural position).toCount)
        (← (Json.natural limit).toCount))) = _
    rw [Json.toCount_natural range.1, Json.toCount_natural range.2]
    rfl

theorem inRange_of_ofTagged {tag : String} {content : Json} {error : ParseError}
    (h : ofTagged tag content = .ok error) : error.InRange := by
  unfold ofTagged at h
  split at h
  case h_5 => simp [malformed] at h
  all_goals
    obtain ⟨values, -, h⟩ := Loaded.bind_eq_ok_iff.mp h
    split at h
    case h_2 => simp [malformed] at h
    simp only [Loaded.bind_eq_ok_iff, Json.toCount_eq_ok_iff] at h
  · obtain ⟨position, ⟨-, below⟩, found, -, expected, -, h⟩ := h
    exact Except.ok.inj h ▸ below
  · obtain ⟨position, ⟨-, below⟩, found, -, text, -, expected, -, h⟩ := h
    exact Except.ok.inj h ▸ below
  · obtain ⟨position, ⟨-, below⟩, expected, -, h⟩ := h
    exact Except.ok.inj h ▸ below
  · obtain ⟨position, ⟨-, below⟩, limit, ⟨-, limitBelow⟩, h⟩ := h
    exact Except.ok.inj h ▸ ⟨below, limitBelow⟩

theorem reloads : Reloads toJson ofJson InRange := by
  refine .of_valid ofJson_toJson ?_
  intro json error h
  cases json with
  | object fields =>
    simp only [ofJson, Loaded.bind_eq_ok_iff] at h
    obtain ⟨_, -, tag, -, read⟩ := h
    exact inRange_of_ofTagged read
  | array items =>
    cases items with
    | nil => simp [ofJson, malformed] at h
    | cons tag items =>
      simp only [ofJson, Loaded.bind_eq_ok_iff] at h
      obtain ⟨name, -, read⟩ := h
      exact inRange_of_ofTagged read
  | _ => simp [ofJson, malformed] at h

end ParseError

theorem Options.below_of_depth {depth : Json} {options : Options}
    (h : (do pure (Options.mk (← depth.toCount)) : Loaded Options) = .ok options) :
    options.maxDepth < countBound := by
  obtain ⟨limit, read, made⟩ := Loaded.bind_eq_ok_iff.mp h
  exact Except.ok.inj made ▸ (Json.toCount_eq_ok_iff.mp read).2

theorem Options.below_of_ofJson {json : Json} {options : Options}
    (h : ofJson json = .ok options) : options.maxDepth < countBound := by
  have default : ({} : Options).maxDepth < countBound := by decide
  unfold ofJson at h
  split at h
  · split at h
    · exact below_of_depth h
    · exact Except.ok.inj h ▸ default
  · exact Except.ok.inj h ▸ default
  · exact below_of_depth h
  · simp [malformed] at h

theorem Options.reloads : Reloads toJson ofJson fun options => options.maxDepth < countBound := by
  refine .of_valid ?_ fun _ _ => below_of_ofJson
  intro options below
  change (do pure (Options.mk (← (Json.natural options.maxDepth).toCount))) = _
  rw [Json.toCount_natural below]
  rfl

/-- Every type that has a JSON form reads back, trees at any depth and errors that no run gives. -/
theorem json_reloads :
    Reloads Expression.toJson Expression.ofJson (fun tree => tree.isValid) ∧
    Reloads Call.toJson Call.ofJson (fun call => call.isValid) ∧
    (∀ reading, Reloads Argument.toJson (Argument.ofJson reading) fun x => x.isValid) ∧
    Reloads Json.rawText Json.toStringText (fun text => isStringText text.toList) ∧
    Reloads Json.rawText Json.toNumberText (fun digits => isNumber digits.toList) ∧
    Reloads Json.boolValue Json.toBoolValue (fun _ => True) ∧
    Reloads Json.rawText Json.toMemberName (fun name => isMemberName name.toList) ∧
    Reloads ConfigValue.toJson ConfigValue.ofJson ConfigValue.Valid ∧
    Reloads ParseError.toJson ParseError.ofJson ParseError.InRange ∧
    (∀ reading, Reloads Found.toJson (Found.ofJson reading) fun _ => True) ∧
    (∀ reading, Reloads TokenKind.toJson (TokenKind.ofJson reading) fun _ => True) ∧
    Reloads ParseErrorKind.toJson ParseErrorKind.ofJson (fun _ => True) ∧
    Reloads Options.toJson Options.ofJson fun options => options.maxDepth < countBound :=
  ⟨Expression.reloads, Call.reloads, Argument.reloads, reloads_checked _ _, reloads_checked _ _,
    reloads_boolean, reloads_checked _ _, ConfigValue.reloads, ParseError.reloads, Found.reloads,
    TokenKind.reloads, ParseErrorKind.reloads, Options.reloads⟩

def nestedTree : Expression :=
  ⟨⟨"f", [.call "g" [.call "h" [], .string "", .number "007"]]⟩, ["-1"]⟩

/-- A reason that no source gives: the end of the input, named as a token, at the last count. -/
def strangeError : ParseError := .unexpectedToken (countBound - 1) .endOfInput "" []

theorem json_reloads_nested :
    Expression.ofJson nestedTree.toJson = .ok nestedTree ∧
      ParseError.ofJson strangeError.toJson = .ok strangeError := by
  obtain ⟨tree, -, -, -, -, -, -, -, error, -⟩ := json_reloads
  have range : strangeError.InRange := Nat.sub_one_lt (by decide : countBound ≠ 0)
  exact ⟨tree.written nestedTree (by decide), error.written strangeError range⟩

end ConfigExpr
