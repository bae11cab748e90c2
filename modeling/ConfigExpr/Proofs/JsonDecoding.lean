import ConfigExpr.Command.Response
import ConfigExpr.Proofs.JsonLayout

/-! The JSON text of a configuration value is that of no other value, whatever the texts in it.
Compact text is read in one way only, since each value tells by its first character what it is and
where it ends. `Json.pares_text` takes every other text back to the compact one. -/
namespace ConfigExpr

def commaSeparated {α : Type} (code : α → List Char) : List α → List Char
  | [] => []
  | x :: r => code x ++ r.flatMap fun y => ',' :: code y

theorem Cancels.separated {α : Type} {valid : α → Prop} {code : α → List Char} {stop : Char}
    {xs ys : List α} {r r' : List Char} (other : ',' ≠ stop)
    (starts : ∀ x, valid x → ∃ c w, code x = c :: w ∧ c ≠ stop)
    (hx : ∀ x ∈ xs, valid x ∧ Cancels valid code x) (hy : ∀ y ∈ ys, valid y)
    (same : commaSeparated code xs ++ stop :: r = commaSeparated code ys ++ stop :: r') :
    xs = ys ∧ r = r' := by
  cases xs with
  | nil =>
    cases ys with
    | nil => exact ⟨rfl, (List.cons.inj same).2⟩
    | cons y ys =>
      obtain ⟨c, w, codeword, apart⟩ := starts y (hy y List.mem_cons_self)
      rw [commaSeparated, commaSeparated, codeword] at same
      exact absurd (List.cons.inj same).1.symm apart
  | cons x xs =>
    obtain ⟨valid_x, cancels⟩ := hx x List.mem_cons_self
    cases ys with
    | nil =>
      obtain ⟨c, w, codeword, apart⟩ := starts x valid_x
      rw [commaSeparated, commaSeparated, codeword] at same
      exact absurd (List.cons.inj same).1 apart
    | cons y ys =>
      rw [commaSeparated, commaSeparated, List.append_assoc, List.append_assoc] at same
      obtain ⟨rfl, tail⟩ := cancels y (hy y List.mem_cons_self) _ _ same
      -- Behind the first one, every codeword starts with its comma.
      have behind (z : α) (h : Cancels valid code z) :
          Cancels valid (fun z => ',' :: code z) z := by
        intro z' valid_z' s s' same
        exact h z' valid_z' s s' (List.cons.inj same).2
      obtain ⟨rfl, rest⟩ := Cancels.list (fun z _ => ⟨',', code z, rfl, other⟩)
        (fun z mem => ⟨(hx z (List.mem_cons_of_mem x mem)).1,
          behind z (hx z (List.mem_cons_of_mem x mem)).2⟩)
        (fun z mem => hy z (List.mem_cons_of_mem x mem)) tail
      exact ⟨rfl, rest⟩

namespace Json

theorem toList_quoted (text : String) :
    (quoted text).toList = '"' :: (text.toList.flatMap escapeChar ++ ['"']) :=
  String.toList_ofList

theorem quoted_cancels (text : String) :
    Cancels (fun _ => True) (fun text => (quoted text).toList) text := by
  intro other _ r r' same
  simp only [toList_quoted, List.cons_append, List.append_assoc, List.cons.injEq, true_and,
    List.nil_append] at same
  obtain ⟨texts, rest⟩ := Escapes.between_cancels form_escapeChar same
  exact ⟨String.toList_inj.mp texts, rest⟩

def compactText (level : Nat) (json : Json) : List Char := (json.text .compact level).toList

def fieldText (level : Nat) (field : String × Json) : List Char :=
  (quoted field.1).toList ++ ':' :: compactText level field.2

theorem toList_compactMarks :
    "[".toList = ['['] ∧ "]".toList = [']'] ∧ "\x7b".toList = ['\x7b'] ∧ "\x7d".toList = ['\x7d'] ∧
      ",".toList = [','] ∧ Layout.compact.colon.toList = [':'] ∧
      ∀ level, (Layout.compact.lineBreak level).toList = [] :=
  ⟨rfl, rfl, rfl, rfl, rfl, rfl, fun _ => rfl⟩

theorem toList_itemsText (level : Nat) (items : List Json) :
    (itemsText .compact level items).toList = commaSeparated (compactText level) items := by
  induction items with
  | nil => rfl
  | cons x r ih =>
    cases r with
    | nil => simp [itemsText, commaSeparated, compactText, toList_compactMarks]
    | cons y r =>
      rw [itemsText, String.toList_append, String.toList_append, String.toList_append, ih]
      simp [commaSeparated, compactText, toList_compactMarks]

theorem toList_fieldsText (level : Nat) (fields : List (String × Json)) :
    (fieldsText .compact level fields).toList = commaSeparated (fieldText level) fields := by
  induction fields with
  | nil => rfl
  | cons x r ih =>
    obtain ⟨key, x⟩ := x
    cases r with
    | nil => simp [fieldsText, commaSeparated, fieldText, compactText, toList_compactMarks]
    | cons y r =>
      rw [fieldsText, String.toList_append, String.toList_append, ih]
      simp [commaSeparated, fieldText, compactText, toList_compactMarks]

theorem compactText_array (level : Nat) (items : List Json) : compactText level (.array items) =
    '[' :: commaSeparated (compactText (level + 1)) items ++ [']'] := by
  cases items with
  | nil => simp [compactText, text, commaSeparated]
  | cons x r =>
    have shown : text .compact level (.array (x :: r)) = "[" ++
      itemsText .compact (level + 1) (x :: r) ++ Layout.compact.lineBreak level ++ "]" := rfl
    rw [compactText, shown, String.toList_append, String.toList_append, String.toList_append,
      toList_itemsText]
    simp [toList_compactMarks]

theorem compactText_object (level : Nat) (fields : List (String × Json)) :
    compactText level (.object fields) =
      '\x7b' :: commaSeparated (fieldText (level + 1)) fields ++ ['\x7d'] := by
  cases fields with
  | nil => simp [compactText, text, commaSeparated]
  | cons x r =>
    have shown : text .compact level (.object (x :: r)) = "\x7b" ++
      fieldsText .compact (level + 1) (x :: r) ++ Layout.compact.lineBreak level ++ "\x7d" := rfl
    rw [compactText, shown, String.toList_append, String.toList_append, String.toList_append,
      toList_fieldsText]
    simp [toList_compactMarks]

def lead : Json → Char
  | null => 'n'
  | bool value => if value then 't' else 'f'
  | string _ => '"'
  | array _ => '['
  | object _ => '\x7b'
  | natural _ | number _ => '0'

theorem exists_compactText_eq (level : Nat) {x : Json} (h : x.isNumberless) :
    ∃ w, compactText level x = x.lead :: w := by
  cases x with
  | null => exact ⟨['u', 'l', 'l'], by simp [compactText, text, lead]⟩
  | bool value => cases value <;> simp [compactText, text, lead]
  | string content => exact ⟨_, toList_quoted content⟩
  | array items => exact ⟨_, compactText_array level items⟩
  | object fields => exact ⟨_, compactText_object level fields⟩
  | natural _ => contradiction
  | number _ => contradiction

theorem lead_eq {level : Nat} {x y : Json} {r r' : List Char} (hx : x.isNumberless)
    (hy : y.isNumberless) (same : compactText level x ++ r = compactText level y ++ r') :
    x.lead = y.lead := by
  obtain ⟨w, hw⟩ := exists_compactText_eq level hx
  obtain ⟨w', hw'⟩ := exists_compactText_eq level hy
  rw [hw, hw'] at same
  exact (List.cons.inj same).1

theorem compactText_starts (level : Nat) (x : Json) (h : x.isNumberless) :
    ∃ c w, compactText level x = c :: w ∧ c ≠ ']' := by
  obtain ⟨w, hw⟩ := exists_compactText_eq level h
  refine ⟨_, w, hw, ?_⟩
  cases x with
  | bool value => cases value <;> simp [lead]
  | _ => simp [lead]

theorem fieldText_starts (level : Nat) (field : String × Json) :
    ∃ c w, fieldText level field = c :: w ∧ c ≠ '\x7d' :=
  ⟨'"', _, by rw [fieldText, toList_quoted, List.cons_append], by decide⟩

theorem areNumberless_iff {items : List Json} :
    areNumberless items ↔ ∀ x ∈ items, x.isNumberless := by
  induction items with
  | nil => simp [areNumberless]
  | cons x r ih => simp [areNumberless, ih]

theorem fieldsNumberless_iff {fields : List (String × Json)} :
    fieldsNumberless fields ↔ ∀ field ∈ fields, field.2.isNumberless := by
  induction fields with
  | nil => simp [fieldsNumberless]
  | cons x r ih => simp [fieldsNumberless, ih]

mutual

theorem compactText_cancels : ∀ (x : Json) (level : Nat), x.isNumberless →
    Cancels (fun y => y.isNumberless) (compactText level) x
  | null, level, hx => by
    intro y hy r r' same
    have leads := lead_eq hx hy same
    cases y with
    | null => exact ⟨rfl, List.append_cancel_left same⟩
    | _ => grind [lead]
  | bool value, level, hx => by
    intro y hy r r' same
    have leads := lead_eq hx hy same
    cases y with
    | bool other =>
      obtain rfl : value = other := by cases value <;> cases other <;> simp [lead] at leads ⊢
      exact ⟨rfl, List.append_cancel_left same⟩
    | _ => grind [lead]
  | string content, level, hx => by
    intro y hy r r' same
    have leads := lead_eq hx hy same
    cases y with
    | string other =>
      obtain ⟨rfl, rest⟩ := quoted_cancels content other trivial r r' same
      exact ⟨rfl, rest⟩
    | _ => grind [lead]
  | array items, level, hx => by
    intro y hy r r' same
    have leads := lead_eq hx hy same
    cases y with
    | array others =>
      rw [compactText_array, compactText_array] at same
      simp only [List.cons_append, List.append_assoc, List.cons.injEq, true_and,
        List.nil_append] at same
      obtain ⟨rfl, rest⟩ := Cancels.separated (by decide) (compactText_starts (level + 1))
        (items_cancel items (level + 1) hx) (areNumberless_iff.mp hy) same
      exact ⟨rfl, rest⟩
    | _ => grind [lead]
  | object fields, level, hx => by
    intro y hy r r' same
    have leads := lead_eq hx hy same
    cases y with
    | object others =>
      rw [compactText_object, compactText_object] at same
      simp only [List.cons_append, List.append_assoc, List.cons.injEq, true_and,
        List.nil_append] at same
      obtain ⟨rfl, rest⟩ := Cancels.separated (by decide)
        (fun field _ => fieldText_starts (level + 1) field)
        (fields_cancel fields (level + 1) hx) (fieldsNumberless_iff.mp hy) same
      exact ⟨rfl, rest⟩
    | _ => grind [lead]

theorem items_cancel : ∀ (items : List Json) (level : Nat), areNumberless items →
    ∀ x ∈ items, x.isNumberless ∧ Cancels (fun y => y.isNumberless) (compactText level) x
  | [], _, _ => by simp
  | x :: r, level, h => by
    rw [areNumberless, Bool.and_eq_true] at h
    rw [List.forall_mem_cons]
    exact ⟨⟨h.1, compactText_cancels x level h.1⟩, items_cancel r level h.2⟩

theorem fields_cancel : ∀ (fields : List (String × Json)) (level : Nat),
    fieldsNumberless fields → ∀ field ∈ fields, field.2.isNumberless ∧
      Cancels (fun other => other.2.isNumberless) (fieldText level) field
  | [], _, _ => by simp
  | (key, x) :: r, level, h => by
    rw [fieldsNumberless, Bool.and_eq_true] at h
    rw [List.forall_mem_cons]
    refine ⟨⟨h.1, ?_⟩, fields_cancel r level h.2⟩
    rintro ⟨key', y⟩ hy s s' same
    simp only [fieldText, List.append_assoc, List.cons_append] at same
    obtain ⟨rfl, behind⟩ := quoted_cancels key key' trivial _ _ same
    obtain ⟨rfl, rest⟩ := compactText_cancels x level h.1 y hy s s' (List.cons.inj behind).2
    exact ⟨rfl, rest⟩

end

variable {x y : Json} {layout other : Layout}

theorem withoutLayout_render (h : x.isNumberless) (layout : Layout) :
    withoutLayout (x.render layout) = x.render .compact := by
  have pared := pares_text layout x 0 h []
  rw [List.append_nil, withoutLayoutFrom, List.append_nil] at pared
  rw [withoutLayout, render, render, pared, String.ofList_toList]

/-- A value without numbers can be told from its text, in whatever layout it is written. -/
theorem eq_of_render_eq (hx : x.isNumberless) (hy : y.isNumberless)
    (same : x.render layout = y.render other) : x = y := by
  have compact : x.render .compact = y.render .compact := by
    rw [← withoutLayout_render hx layout, ← withoutLayout_render hy other, same]
  have texts : compactText 0 x ++ [] = compactText 0 y ++ [] := by
    rw [List.append_nil, List.append_nil]
    exact congrArg String.toList compact
  exact (compactText_cancels x 0 hx y hy [] [] texts).1

end Json

/-! Trees and values can be told from their JSON form, and there is no number in it. -/

mutual

theorem Argument.toJson_inj : ∀ {x y : Argument}, x.toJson = y.toJson → x = y
  | .call name arguments, y, same => by
    cases y with
    | call name' arguments' =>
      simp only [Argument.toJson, Json.object.injEq, List.cons.injEq, Prod.mk.injEq,
        Json.string.injEq, Json.array.injEq, true_and, and_true] at same
      rw [same.1, Argument.listToJson_inj same.2]
    | _ => simp [Argument.toJson] at same
  | .string text, y, same => by cases y <;> simp_all [Argument.toJson]
  | .number digits, y, same => by cases y <;> simp_all [Argument.toJson]
  | .boolean value, y, same => by cases y <;> simp_all [Argument.toJson]

theorem Argument.listToJson_inj : ∀ {xs ys : List Argument},
    Argument.listToJson xs = Argument.listToJson ys → xs = ys
  | [], ys, same => by cases ys <;> simp_all [Argument.listToJson]
  | x :: xs, ys, same => by
    cases ys with
    | nil => simp [Argument.listToJson] at same
    | cons y ys =>
      rw [Argument.listToJson, Argument.listToJson, List.cons.injEq] at same
      rw [Argument.toJson_inj same.1, Argument.listToJson_inj same.2]

end

theorem Expression.toJson_inj {a b : Expression} (same : a.toJson = b.toJson) : a = b := by
  obtain ⟨⟨name, arguments⟩, members⟩ := a
  obtain ⟨⟨name', arguments'⟩, members'⟩ := b
  simp only [Expression.toJson, Call.toJson, Json.object.injEq, List.cons.injEq, Prod.mk.injEq,
    Json.string.injEq, Json.array.injEq, true_and, and_true] at same
  obtain ⟨⟨names, lists⟩, texts⟩ := same
  have raw : ∀ s t, Json.rawText s = Json.rawText t → s = t := by
    intro s t same
    simpa [Json.rawText] using same
  rw [names, Argument.listToJson_inj lists, (List.map_inj_right raw).mp texts]

mutual

theorem Argument.toJson_numberless : ∀ x : Argument, x.toJson.isNumberless
  | .call name arguments => by
    have inner := Argument.listToJson_numberless arguments
    simp [Argument.toJson, Json.isNumberless, Json.fieldsNumberless, inner]
  | .string _ => rfl
  | .number _ => rfl
  | .boolean _ => rfl

theorem Argument.listToJson_numberless : ∀ xs : List Argument,
    Json.areNumberless (Argument.listToJson xs)
  | [] => rfl
  | x :: xs => by
    rw [Argument.listToJson, Json.areNumberless, Bool.and_eq_true]
    exact ⟨Argument.toJson_numberless x, Argument.listToJson_numberless xs⟩

end

theorem Expression.toJson_numberless (expression : Expression) :
    expression.toJson.isNumberless := by
  have arguments := Argument.listToJson_numberless expression.function.arguments
  have members : Json.areNumberless (expression.members.map Json.rawText) := by
    rw [Json.areNumberless_iff]
    intro json mem
    obtain ⟨name, -, rfl⟩ := List.mem_map.mp mem
    rfl
  simp [Expression.toJson, Call.toJson, Json.isNumberless, Json.fieldsNumberless, arguments,
    members]

namespace ConfigValue

/-- What is printed as JSON: a tree without a tag, or a literal with one. -/
def printed : ConfigValue → Json
  | literal text => toJson (.literal text)
  | expression tree => tree.toJson

theorem render_json (value : ConfigValue) (layout : Layout) :
    value.render .json layout = value.printed.render layout := by
  cases value <;> rfl

theorem printed_numberless (value : ConfigValue) : value.printed.isNumberless := by
  cases value with
  | literal text => rfl
  | expression tree => exact tree.toJson_numberless

/-- The tag of a literal stands where a tree has its function. -/
theorem printed_inj {v w : ConfigValue} (same : v.printed = w.printed) : v = w := by
  cases v with
  | literal text =>
    cases w with
    | literal other =>
      simp only [printed, toJson, Json.tagged, Json.object.injEq, List.cons.injEq, Prod.mk.injEq,
        Json.string.injEq, true_and, and_true] at same
      rw [same]
    | expression tree => simp [printed, toJson, Json.tagged, Expression.toJson] at same
  | expression tree =>
    cases w with
    | literal text => simp [printed, toJson, Json.tagged, Expression.toJson] at same
    | expression other => rw [Expression.toJson_inj same]

end ConfigValue

/-- In either layout two values have the same JSON text only if they are the same value, and without
its layout the text is the compact one. -/
theorem render_json_unambiguous (v w : ConfigValue) :
    (∀ layout, v.render .json layout = w.render .json layout ↔ v = w) ∧
      ∀ layout, Json.withoutLayout (v.render .json layout) = v.render .json .compact := by
  constructor
  · intro layout
    constructor
    · intro same
      rw [v.render_json, w.render_json] at same
      have values := Json.eq_of_render_eq v.printed_numberless w.printed_numberless same
      exact ConfigValue.printed_inj values
    · rintro rfl
      rfl
  · intro layout
    rw [v.render_json, v.render_json]
    exact Json.withoutLayout_render v.printed_numberless layout

example : Json.withoutLayout ((ConfigValue.literal "a \\\" b").render .json .indented) =
    "\x7b\"type\":\"literal\",\"value\":\"a \\\\\\\" b\"\x7d" := by
  decide +kernel

end ConfigExpr
