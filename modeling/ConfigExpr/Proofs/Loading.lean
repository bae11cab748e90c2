import ConfigExpr.Proofs.JsonShape

/-! A JSON value of the shape of a tree reads as that tree or fails with the first bad node in it,
and nothing else reads as a tree. -/
namespace ConfigExpr

/-! What is read under each tag. -/

namespace Argument

theorem argumentsField_eq (fields : List (String × Json)) :
    argumentsField fields = Json.field "arguments" fields >>= listOfJson .lenient := by
  induction fields with
  | nil => rfl
  | cons entry r ih =>
    obtain ⟨key, json⟩ := entry
    by_cases h : key = "arguments"
    · subst h
      simp [argumentsField, Json.field, bind, Except.bind]
    · have other : ("arguments" == key) = false := by simpa using Ne.symm h
      simp [argumentsField, Json.field, h, ih, List.lookup_cons, other]

theorem ofJson_array (reading : Reading) (first : Json) (items : List Json) :
    ofJson reading (.array (first :: items)) = (do
      let tag ← ArgumentTag.ofJson reading first
      if tag = .call then
        match items with
        | name :: arguments :: extra => do
          let name ← name.toText
          let arguments ← listOfJson .lenient arguments
          if extra.isEmpty then
            let call ← Loaded.ofCheck (Call.check name arguments)
            pure call.toArgument
          else malformed
        | _ => malformed
      else leafOfJson tag (.array items)) := by
  rcases items with _ | ⟨name, _ | ⟨arguments, extra⟩⟩ <;> simp only [ofJson]

def callOfJson (name : String) (arguments : Json) : Loaded Argument := do
  let arguments ← listOfJson .lenient arguments
  let call ← Loaded.ofCheck (Call.check name arguments)
  pure call.toArgument

theorem ofJson_of_heads_call {reading : Reading} {json content arguments : Json} {name : String}
    (heads : ArgumentTag.call.Heads reading json content)
    (record : content.IsRecord [("name", .string name), ("arguments", arguments)]) :
    ofJson reading json = callOfJson name arguments := by
  obtain ⟨first, named, tagged⟩ := heads
  have read := ArgumentTag.ofJson_eq_ok_iff.mpr named
  cases tagged with
  | @object fields found =>
    cases record with
    | object entries =>
      have hn := Json.field_eq_ok_iff.mpr (entries _ (.head _))
      have ha := Json.field_eq_ok_iff.mpr (entries _ (.tail _ (.head _)))
      have ht := Json.field_eq_ok_iff.mpr found
      simp only [ofJson, ht, read, argumentsField_eq, ha, hn, Loaded.ok_bind, if_pos]
      rfl
  | array =>
    cases record with
    | array =>
      simp only [ofJson_array, read, Loaded.ok_bind, if_pos]
      rfl

theorem ofJson_of_heads {tag : ArgumentTag} {reading : Reading} {json content : Json}
    (heads : tag.Heads reading json content) (leaf : tag ≠ .call) :
    ofJson reading json = leafOfJson tag content := by
  obtain ⟨first, named, tagged⟩ := heads
  have read := ArgumentTag.ofJson_eq_ok_iff.mpr named
  cases tagged with
  | object found =>
    have ht := Json.field_eq_ok_iff.mpr found
    simp only [ofJson, ht, read, Loaded.ok_bind, if_neg leaf]
  | array => simp only [ofJson_array, read, Loaded.ok_bind, if_neg leaf]

inductive ReadsBehindTag (reading : Reading) (json : Json) (x : Argument) : Prop where
  | call {content name arguments} : ArgumentTag.call.Heads reading json content →
      content.IsRecord [("name", .string name), ("arguments", arguments)] →
      callOfJson name arguments = .ok x → ReadsBehindTag reading json x
  | leaf {tag content} : tag.Heads reading json content → leafOfJson tag content = .ok x →
      ReadsBehindTag reading json x

theorem readsBehindTag_of_object {reading : Reading} {fields : List (String × Json)} {x : Argument}
    (h : ofJson reading (.object fields) = .ok x) : ReadsBehindTag reading (.object fields) x := by
  simp only [ofJson, Loaded.bind_eq_ok_iff, Json.field_eq_ok_iff] at h
  obtain ⟨first, found, tag, read, h⟩ := h
  have heads : tag.Heads reading (.object fields) (.object fields) :=
    ⟨first, ArgumentTag.ofJson_eq_ok_iff.mp read, .object found⟩
  split at h
  · next ht =>
    subst ht
    simp only [argumentsField_eq, Loaded.bind_eq_ok_iff, Json.field_eq_ok_iff,
      Json.toText_eq_ok_iff] at h
    obtain ⟨xs, ⟨arguments, ha, read⟩, _, hn, name, rfl, h⟩ := h
    have record : (Json.object fields).IsRecord
        [("name", .string name), ("arguments", arguments)] := .object (by simp [hn, ha])
    refine .call heads record ?_
    simpa only [callOfJson, read, Loaded.ok_bind, Loaded.bind_eq_ok_iff] using h
  · exact .leaf heads h

theorem readsBehindTag_of_array {reading : Reading} {first : Json} {items : List Json}
    {x : Argument} (h : ofJson reading (.array (first :: items)) = .ok x) :
    ReadsBehindTag reading (.array (first :: items)) x := by
  simp only [ofJson_array, Loaded.bind_eq_ok_iff] at h
  obtain ⟨tag, read, h⟩ := h
  have heads : tag.Heads reading (.array (first :: items)) (.array items) :=
    ⟨first, ArgumentTag.ofJson_eq_ok_iff.mp read, .array⟩
  split at h
  · next ht =>
    subst ht
    split at h
    · next name arguments extra =>
      simp only [Loaded.bind_eq_ok_iff, Json.toText_eq_ok_iff] at h
      obtain ⟨text, rfl, xs, read, h⟩ := h
      split at h
      · next he =>
        obtain rfl := List.isEmpty_iff.mp he
        refine .call heads .array ?_
        simpa only [callOfJson, read, Loaded.ok_bind] using h
      · simp [malformed] at h
    · simp [malformed] at h
  · exact .leaf heads h

theorem readsBehindTag_of_ofJson {reading : Reading} {json : Json} {x : Argument}
    (h : ofJson reading json = .ok x) : ReadsBehindTag reading json x := by
  cases json with
  | object fields => exact readsBehindTag_of_object h
  | array items =>
    cases items with
    | nil => simp [ofJson, malformed] at h
    | cons first items => exact readsBehindTag_of_array h
  | _ => simp [ofJson, malformed] at h

theorem listOfJson_eq_ok_iff {reading : Reading} {json : Json} {xs : List Argument} :
    listOfJson reading json = .ok xs ↔
      ∃ items, json = .array items ∧ itemsOfJson reading items = .ok xs := by
  cases json <;> simp [listOfJson, malformed]

end Argument

/-! The checks of the nodes, as they are met while reading. -/

theorem Loaded.ofCheck_ite {α : Type} {p : Prop} [Decidable p] {a : α} {node : InvalidNode} :
    Loaded.ofCheck (if p then .ok a else .error node) =
      .barring (if p then none else some node) a := by
  split <;> rfl

theorem Call.ofCheck_eq (name : String) (arguments : List Argument) :
    Loaded.ofCheck (Call.check name arguments) =
      .barring (if isFunctionName name.toList then none else some (.functionName name))
        ⟨name, arguments⟩ :=
  Loaded.ofCheck_ite

namespace Json

def toChecked (valid : List Char → Bool) (node : String → InvalidNode) (json : Json) :
    Loaded String := do
  let text ← json.toRawText
  Loaded.ofCheck (if valid text.toList then .ok text else .error (node text))

theorem toStringText_eq : toStringText = toChecked isStringText .stringText := rfl

theorem toNumberText_eq : toNumberText = toChecked isNumber .number := rfl

theorem toMemberName_eq : toMemberName = toChecked isMemberName .memberName := rfl

variable {valid : List Char → Bool} {node : String → InvalidNode} {json : Json} {text : String}

theorem IsRecord.toChecked_eq (record : json.IsRecord [("raw_text", .string text)]) :
    json.toChecked valid node =
      .barring (if valid text.toList then none else some (node text)) text := by
  rw [toChecked, toRawText_eq_ok_iff.mpr record]
  exact Loaded.ofCheck_ite

theorem toChecked_eq_ok_iff : json.toChecked valid node = .ok text ↔
    json.IsRecord [("raw_text", .string text)] ∧ valid text.toList := by
  constructor
  · intro h
    obtain ⟨raw, read, -⟩ := Loaded.bind_eq_ok_iff.mp h
    have record := toRawText_eq_ok_iff.mp read
    rw [record.toChecked_eq, Loaded.barring_eq_ok_iff] at h
    obtain ⟨checked, rfl⟩ := h
    exact ⟨record, by simpa using checked⟩
  · rintro ⟨record, checked⟩
    simp [record.toChecked_eq, checked, Loaded.barring]

end Json

/-! A value of the shape of a tree reads as the tree, barring the first bad node in it. -/

namespace Argument

mutual

theorem Shape.ofJson_eq : ∀ {reading : Reading} {x : Argument} {json : Json},
    Shape reading x json → ofJson reading json = .barring x.firstInvalid? x
  | _, .call name arguments, _, .call heads record list => by
    rw [ofJson_of_heads_call heads record, callOfJson, listOfJson, list.itemsOfJson_eq]
    refine Loaded.barring_bind ?_
    rw [Call.ofCheck_eq]
    exact Loaded.barring_bind_ok rfl
  | _, .string text, _, .string heads record => by
    rw [ofJson_of_heads heads (by decide), leafOfJson, Json.toStringText_eq, record.toChecked_eq]
    exact Loaded.barring_map Argument.string
  | _, .number digits, _, .number heads record => by
    rw [ofJson_of_heads heads (by decide), leafOfJson, Json.toNumberText_eq, record.toChecked_eq]
    exact Loaded.barring_map Argument.number
  | _, .boolean value, _, .boolean heads record => by
    rw [ofJson_of_heads heads (by decide), leafOfJson, Json.toBoolValue_eq_ok_iff.mpr record]
    rfl

theorem ListShape.itemsOfJson_eq : ∀ {reading : Reading} {xs : List Argument} {items : List Json},
    ListShape reading xs items →
      itemsOfJson reading items = .barring (firstInvalidOfList? xs) xs
  | _, [], [], .nil => rfl
  | _, x :: r, json :: items, .cons shape list => by
    rw [itemsOfJson, shape.ofJson_eq, list.itemsOfJson_eq]
    exact Loaded.barring_bind (Loaded.barring_bind_ok rfl)

end

theorem exists_of_callOfJson {name : String} {arguments : Json} {x : Argument}
    (h : callOfJson name arguments = .ok x) : ∃ items xs, arguments = .array items ∧
      itemsOfJson .lenient items = .ok xs ∧ x = .call name xs := by
  simp only [callOfJson, Call.ofCheck_eq, Loaded.bind_eq_ok_iff, Loaded.barring_eq_ok_iff] at h
  obtain ⟨xs, read, call, ⟨-, rfl⟩, made⟩ := h
  obtain ⟨items, rfl, read⟩ := listOfJson_eq_ok_iff.mp read
  exact ⟨items, xs, rfl, read, (Except.ok.inj made).symm⟩

theorem shape_of_leaf {tag : ArgumentTag} {reading : Reading} {json content : Json} {x : Argument}
    (heads : tag.Heads reading json content) (h : leafOfJson tag content = .ok x) :
    x.Shape reading json := by
  cases tag with
  | call => simp [leafOfJson, malformed] at h
  | string =>
    obtain ⟨text, read, rfl⟩ := Loaded.map_eq_ok_iff.mp h
    exact .string heads (Json.toChecked_eq_ok_iff.mp read).1
  | number =>
    obtain ⟨digits, read, rfl⟩ := Loaded.map_eq_ok_iff.mp h
    exact .number heads (Json.toChecked_eq_ok_iff.mp read).1
  | boolean =>
    obtain ⟨value, read, rfl⟩ := Loaded.map_eq_ok_iff.mp h
    exact .boolean heads (Json.toBoolValue_eq_ok_iff.mp read)

theorem itemsOfJson_cons_eq_ok_iff {reading : Reading} {json : Json} {items : List Json}
    {xs : List Argument} : itemsOfJson reading (json :: items) = .ok xs ↔
      ∃ x r, xs = x :: r ∧ ofJson reading json = .ok x ∧ itemsOfJson reading items = .ok r := by
  simp only [itemsOfJson, Loaded.bind_eq_ok_iff]
  constructor
  · rintro ⟨x, head, r, rest, made⟩
    exact ⟨x, r, (Except.ok.inj made).symm, head, rest⟩
  · rintro ⟨x, r, rfl, head, rest⟩
    exact ⟨x, head, r, rest, rfl⟩

theorem shape_of_ofJson_of {reading : Reading} {json : Json} {x : Argument}
    (inner : ∀ name xs, x = .call name xs → ∀ items, itemsOfJson .lenient items = .ok xs →
      ListShape .lenient xs items)
    (h : ofJson reading json = .ok x) : x.Shape reading json := by
  cases readsBehindTag_of_ofJson h with
  | @call _ name _ heads record read =>
    obtain ⟨items, xs, rfl, readItems, rfl⟩ := exists_of_callOfJson read
    exact .call heads record (inner name xs rfl items readItems)
  | leaf heads read => exact shape_of_leaf heads read

mutual

theorem shape_of_ofJson : ∀ (x : Argument) {reading : Reading} {json : Json},
    ofJson reading json = .ok x → x.Shape reading json
  | .call name xs, _, _, h => by
    refine shape_of_ofJson_of (fun _ _ hx items read => ?_) h
    obtain ⟨rfl, rfl⟩ := Argument.call.inj hx
    exact listShape_of_itemsOfJson xs read
  | .string _, _, _, h | .number _, _, _, h | .boolean _, _, _, h =>
    shape_of_ofJson_of (by simp) h

theorem listShape_of_itemsOfJson : ∀ (xs : List Argument) {reading : Reading} {items : List Json},
    itemsOfJson reading items = .ok xs → ListShape reading xs items
  | xs, _, [], h => by
    obtain rfl := Except.ok.inj h
    exact .nil
  | [], _, _ :: _, h => by simp [itemsOfJson_cons_eq_ok_iff] at h
  | x :: r, _, json :: items, h => by
    obtain ⟨_, _, hx, head, rest⟩ := itemsOfJson_cons_eq_ok_iff.mp h
    obtain ⟨rfl, rfl⟩ := List.cons.inj hx
    exact .cons (shape_of_ofJson x head) (listShape_of_itemsOfJson r rest)

end

/-- What reads as an argument has its shape, and each node in it passes its check. -/
theorem ofJson_eq_ok_iff {reading : Reading} {json : Json} {x : Argument} :
    ofJson reading json = .ok x ↔ x.Shape reading json ∧ x.isValid := by
  rw [← firstInvalid?_eq_none_iff]
  exact Loaded.eq_ok_iff Shape.ofJson_eq (shape_of_ofJson x)

end Argument

namespace Call

theorem Shape.ofJson_eq {call : Call} {json : Json} (shape : call.Shape json) :
    ofJson json = .barring call.toArgument.firstInvalid? call := by
  obtain ⟨items, record, list⟩ := shape
  have read : Argument.listOfJson .strict (.array items) = _ := list.itemsOfJson_eq
  cases record with
  | object entries =>
    have hn := Json.field_eq_ok_iff.mpr (entries _ (.head _))
    have ha := Json.field_eq_ok_iff.mpr (entries _ (.tail _ (.head _)))
    simp only [ofJson, hn, ha, read, Loaded.ok_bind]
    exact Loaded.barring_bind (Call.ofCheck_eq _ _)
  | array =>
    simp only [List.map_cons, List.map_nil, ofJson, read, Json.toText, Loaded.ok_bind]
    exact Loaded.barring_bind (Call.ofCheck_eq _ _)

theorem shape_of_ofJson {call : Call} {json : Json} (h : ofJson json = .ok call) :
    call.Shape json := by
  cases json with
  | object fields =>
    simp only [ofJson, Loaded.bind_eq_ok_iff, Json.field_eq_ok_iff, Json.toText_eq_ok_iff,
      Call.ofCheck_eq, Loaded.barring_eq_ok_iff] at h
    obtain ⟨arguments, ha, xs, read, _, hn, name, rfl, -, rfl⟩ := h
    obtain ⟨items, rfl, read⟩ := Argument.listOfJson_eq_ok_iff.mp read
    exact ⟨items, .object (by simp [hn, ha]), Argument.listShape_of_itemsOfJson xs read⟩
  | array items =>
    rcases items with _ | ⟨name, _ | ⟨arguments, extra⟩⟩
    · simp [ofJson, malformed] at h
    · simp [ofJson, malformed] at h
    · simp only [ofJson, Loaded.bind_eq_ok_iff, Json.toText_eq_ok_iff] at h
      obtain ⟨text, rfl, xs, read, h⟩ := h
      split at h
      · next he =>
        obtain rfl := List.isEmpty_iff.mp he
        rw [Call.ofCheck_eq, Loaded.barring_eq_ok_iff] at h
        obtain ⟨-, rfl⟩ := h
        obtain ⟨items, rfl, read⟩ := Argument.listOfJson_eq_ok_iff.mp read
        exact ⟨items, .array, Argument.listShape_of_itemsOfJson xs read⟩
      · simp [malformed] at h
  | _ => simp [ofJson, malformed] at h

theorem ofJson_eq_ok_iff {call : Call} {json : Json} :
    ofJson json = .ok call ↔ call.Shape json ∧ call.isValid := by
  rw [isValid, ← Argument.firstInvalid?_eq_none_iff]
  exact Loaded.eq_ok_iff Shape.ofJson_eq shape_of_ofJson

end Call

theorem MemberShapes.membersOfJson_eq {names : List String} {items : List Json}
    (list : MemberShapes names items) :
    membersOfJson (.array items) = .barring (firstInvalidMember? names) names := by
  change items.mapM Json.toMemberName = _
  induction list with
  | nil => rfl
  | @cons name item names items record _ ih =>
    rw [List.mapM_cons, Json.toMemberName_eq, record.toChecked_eq, ← Json.toMemberName_eq, ih]
    have checks : firstInvalidMember? (name :: names) =
        (if isMemberName name.toList then none else some (.memberName name)).or
          (firstInvalidMember? names) := by
      rw [firstInvalidMember?]
      split <;> rfl
    rw [checks]
    exact Loaded.barring_bind (Loaded.barring_bind_ok rfl)

theorem memberShapes_of_membersOfJson {names : List String} {json : Json}
    (h : membersOfJson json = .ok names) : ∃ items, json = .array items ∧
      MemberShapes names items := by
  obtain ⟨items, list, read⟩ := Loaded.bind_eq_ok_iff.mp h
  cases json <;> simp only [Json.toList, malformed, Except.ok.injEq, reduceCtorEq] at list
  subst list
  refine ⟨_, rfl, (Loaded.mapM_eq_ok_iff.mp read).flip.imp ?_⟩
  intro name item h
  rw [Json.toMemberName_eq] at h
  exact (Json.toChecked_eq_ok_iff.mp h).1

namespace Expression

theorem Shape.ofJson_eq {expression : Expression} {json : Json} (shape : expression.Shape json) :
    ofJson json = .barring expression.firstInvalid? expression := by
  obtain ⟨function, items, record, call, members⟩ := shape
  cases record with
  | object entries =>
    have hf : List.lookup "function" _ = some function := entries _ (.head _)
    have hm := entries _ (.tail _ (.head _))
    have mapped {α : Type} (first : Option InvalidNode) (a : α) :
        some <$> Loaded.barring first a = Loaded.barring first (some a) := Loaded.barring_map some
    simp only [ofJson, hf, hm, Option.mapM_some, call.ofJson_eq, members.membersOfJson_eq, mapped]
    exact Loaded.barring_bind (Loaded.barring_bind_ok rfl)
  | array =>
    simp only [List.map_cons, List.map_nil, ofJson, call.ofJson_eq, members.membersOfJson_eq]
    exact Loaded.barring_bind (Loaded.barring_bind_ok rfl)

theorem shape_of_ofJson {expression : Expression} {json : Json} (h : ofJson json = .ok expression) :
    expression.Shape json := by
  cases json with
  | object fields =>
    simp only [ofJson, Loaded.bind_eq_ok_iff] at h
    obtain ⟨function, readFunction, members, readMembers, h⟩ := h
    split at h
    · next function members =>
      obtain rfl := Except.ok.inj h
      obtain ⟨_, hf, readFunction⟩ := Loaded.optionMapM_eq_ok_some_iff.mp readFunction
      obtain ⟨_, hm, readMembers⟩ := Loaded.optionMapM_eq_ok_some_iff.mp readMembers
      obtain ⟨items, rfl, list⟩ := memberShapes_of_membersOfJson readMembers
      exact ⟨_, items, .object (by simp [hf, hm]), Call.shape_of_ofJson readFunction, list⟩
    · simp [malformed] at h
  | array items =>
    rcases items with _ | ⟨function, _ | ⟨members, extra⟩⟩
    · simp [ofJson, malformed] at h
    · simp [ofJson, malformed, Loaded.bind_eq_ok_iff] at h
    · simp only [ofJson, Loaded.bind_eq_ok_iff] at h
      obtain ⟨call, readFunction, names, readMembers, h⟩ := h
      split at h
      · next he =>
        obtain rfl := List.isEmpty_iff.mp he
        obtain rfl := Except.ok.inj h
        obtain ⟨items, rfl, list⟩ := memberShapes_of_membersOfJson readMembers
        exact ⟨function, items, .array, Call.shape_of_ofJson readFunction, list⟩
      · simp [malformed] at h
  | _ => simp [ofJson, malformed] at h

/-- What reads as an expression has its shape, and each node in it passes its check. -/
theorem ofJson_eq_ok_iff {expression : Expression} {json : Json} :
    ofJson json = .ok expression ↔ expression.Shape json ∧ expression.isValid := by
  rw [← firstInvalid?_eq_none_iff]
  exact Loaded.eq_ok_iff Shape.ofJson_eq shape_of_ofJson

end Expression

end ConfigExpr
