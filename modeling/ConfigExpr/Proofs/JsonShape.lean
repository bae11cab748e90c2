import ConfigExpr.Json.Decode
import Mathlib.Data.List.Forall2

/-! The JSON values that have the shape of a tree, whatever the texts in its nodes are, and what
the readers of single fields, records and tags accept. -/
namespace ConfigExpr

namespace Loaded

/-- What is read for a value in which the first bad node is the given one. -/
def barring {α : Type} (first : Option InvalidNode) (a : α) : Loaded α :=
  match first with
  | none => .ok a
  | some node => .error (.invalidNode node)

variable {α β : Type}

theorem barring_bind {first next : Option InvalidNode} {a : α} {b : β} {f : α → Loaded β}
    (h : f a = barring next b) : (barring first a >>= f) = barring (first.or next) b := by
  cases first with
  | none => exact h
  | some node => rfl

theorem barring_map {first : Option InvalidNode} {a : α} (f : α → β) :
    (barring first a).map f = barring first (f a) := by
  cases first <;> rfl

theorem barring_bind_ok {first : Option InvalidNode} {a : α} {b : β} {f : α → Loaded β}
    (h : f a = .ok b) : (barring first a >>= f) = barring first b := by
  cases first with
  | none => exact h
  | some node => rfl

theorem barring_eq_ok_iff {first : Option InvalidNode} {a b : α} :
    barring first a = .ok b ↔ first = none ∧ a = b := by
  cases first <;> simp [barring]

theorem barring_eq_invalidNode_iff {first : Option InvalidNode} {a : α} {node : InvalidNode} :
    barring first a = .error (.invalidNode node) ↔ first = some node := by
  cases first <;> simp [barring]

theorem eq_ok_iff {x : Loaded α} {a : α} {first : Option InvalidNode} {shape : Prop}
    (reads : shape → x = barring first a) (only : x = .ok a → shape) :
    x = .ok a ↔ shape ∧ first = none := by
  constructor
  · intro h
    have known := only h
    rw [reads known, barring_eq_ok_iff] at h
    exact ⟨known, h.1⟩
  · rintro ⟨h, rfl⟩
    exact reads h

theorem ok_bind (a : α) (f : α → Loaded β) : (Except.ok a >>= f) = f a := rfl

theorem bind_eq_ok_iff {x : Loaded α} {f : α → Loaded β} {b : β} :
    (x >>= f) = .ok b ↔ ∃ a, x = .ok a ∧ f a = .ok b := by
  cases x <;> simp [bind, Except.bind]

theorem map_eq_ok_iff {x : Loaded α} {f : α → β} {b : β} :
    x.map f = .ok b ↔ ∃ a, x = .ok a ∧ f a = b := by
  cases x <;> simp [Except.map]

theorem optionMapM_eq_ok_some_iff {f : α → Loaded β} {x : Option α} {b : β} :
    x.mapM f = .ok (some b) ↔ ∃ a, x = some a ∧ f a = .ok b := by
  cases x with
  | none => simp [pure, Except.pure]
  | some a => simp [Option.mapM_some, Functor.map, map_eq_ok_iff]

theorem mapM_eq_ok_iff {f : α → Loaded β} {xs : List α} {ys : List β} :
    xs.mapM f = .ok ys ↔ List.Forall₂ (fun x y => f x = .ok y) xs ys := by
  induction xs generalizing ys with
  | nil => cases ys <;> simp [pure, Except.pure]
  | cons x r ih =>
    simp only [List.mapM_cons, bind_eq_ok_iff, ih, List.forall₂_cons_left_iff]
    simp [pure, Except.pure, eq_comm]

end Loaded

namespace Json

/-- A record of these entries: an object that has them among its fields, or an array of their
values in the given order. -/
inductive IsRecord (entries : List (String × Json)) : Json → Prop where
  | object {fields} : (∀ entry ∈ entries, fields.lookup entry.1 = some entry.2) →
      IsRecord entries (.object fields)
  | array : IsRecord entries (.array (entries.map Prod.snd))

/-- One of several names. A lenient reading takes its number among them too. -/
inductive IsName (names : List String) (name : String) : Reading → Json → Prop where
  | text {reading} : IsName names name reading (.string name)
  | number {n} : names[n]? = some name → IsName names name .lenient (.natural n)

/-- A record behind its tag. The tag of an object is a field that the rest does not look at. -/
inductive IsTagged (tag : Json) : Json → Json → Prop where
  | object {fields} : fields.lookup "type" = some tag →
      IsTagged tag (.object fields) (.object fields)
  | array {items} : IsTagged tag (.array items) (.array (tag :: items))

theorem field_eq_ok_iff {key : String} {fields : List (String × Json)} {json : Json} :
    field key fields = .ok json ↔ fields.lookup key = some json := by
  unfold field
  cases fields.lookup key <;> simp [malformed]

theorem toText_eq_ok_iff {json : Json} {text : String} :
    json.toText = .ok text ↔ json = .string text := by
  cases json <;> simp [toText, malformed]

theorem toBool_eq_ok_iff {json : Json} {value : Bool} :
    json.toBool = .ok value ↔ json = .bool value := by
  cases json <;> simp [toBool, malformed]

theorem nameAmong_eq_ok_iff {reading : Reading} {names : List String} {json : Json}
    {name : String} : json.nameAmong reading names = .ok name ↔ IsName names name reading json := by
  constructor
  · intro h
    cases json <;> simp only [nameAmong, malformed, Except.ok.injEq, reduceCtorEq] at h
    · split at h
      · next hn =>
        obtain rfl := Except.ok.inj h
        exact .number hn
      · simp at h
    · exact h ▸ .text
  · rintro (_ | hn)
    · rfl
    · simp [nameAmong, hn]

theorem isRecord_singleton_iff {key : String} {value json : Json} :
    json.IsRecord [(key, value)] ↔
      (∃ fields, json = .object fields ∧ fields.lookup key = some value) ∨
        json = .array [value] := by
  constructor
  · intro record
    cases record with
    | object h => exact .inl ⟨_, rfl, h _ (List.mem_singleton_self _)⟩
    | array => exact .inr rfl
  · rintro (⟨fields, rfl, h⟩ | rfl)
    · exact .object (by simpa using h)
    · exact .array

theorem record_eq_ok_iff {key : String} {json : Json} {values : List Json} :
    json.record [key] = .ok values ↔ ∃ value, values = [value] ∧ json.IsRecord [(key, value)] := by
  simp only [isRecord_singleton_iff]
  cases json with
  | object fields =>
    simp only [record, List.mapM_cons, List.mapM_nil, Loaded.bind_eq_ok_iff, field_eq_ok_iff]
    simp [pure, Except.pure, and_comm, eq_comm]
  | array items =>
    by_cases h : items.length = 1
    · obtain ⟨item, rfl⟩ := List.length_eq_one_iff.mp h
      simp [record, eq_comm]
    · have other : ∀ value, items ≠ [value] := by
        rintro value rfl
        exact h rfl
      simp [record, malformed, h, other]
  | _ => simp [record, malformed]

theorem toRawText_eq_ok_iff {json : Json} {text : String} :
    json.toRawText = .ok text ↔ json.IsRecord [("raw_text", .string text)] := by
  simp only [toRawText, Loaded.bind_eq_ok_iff, record_eq_ok_iff]
  constructor
  · rintro ⟨values, ⟨value, rfl, record⟩, h⟩
    exact toText_eq_ok_iff.mp h ▸ record
  · intro record
    exact ⟨_, ⟨_, rfl, record⟩, rfl⟩

theorem toBoolValue_eq_ok_iff {json : Json} {value : Bool} :
    json.toBoolValue = .ok value ↔ json.IsRecord [("value", .bool value)] := by
  simp only [toBoolValue, Loaded.bind_eq_ok_iff, record_eq_ok_iff]
  constructor
  · rintro ⟨values, ⟨value, rfl, record⟩, h⟩
    exact toBool_eq_ok_iff.mp h ▸ record
  · intro record
    exact ⟨_, ⟨_, rfl, record⟩, rfl⟩

end Json

namespace ArgumentTag

def name : ArgumentTag → String
  | call => "function"
  | string => "string"
  | number => "number"
  | boolean => "boolean"

def names : List String := [call, string, number, boolean].map name

theorem ofName_eq_ok_iff {text : String} {tag : ArgumentTag} :
    ofName text = .ok tag ↔ text = tag.name := by
  constructor
  · intro h
    unfold ofName at h
    split at h <;> simp only [malformed, Except.ok.injEq, reduceCtorEq] at h <;> exact h ▸ rfl
  · rintro rfl
    cases tag <;> rfl

theorem ofJson_eq_ok_iff {reading : Reading} {json : Json} {tag : ArgumentTag} :
    ofJson reading json = .ok tag ↔ Json.IsName names tag.name reading json := by
  simp only [ofJson, Loaded.bind_eq_ok_iff, Json.nameAmong_eq_ok_iff, ofName_eq_ok_iff]
  simp [names, name]

def Heads (tag : ArgumentTag) (reading : Reading) (json content : Json) : Prop :=
  ∃ first, Json.IsName names tag.name reading first ∧ Json.IsTagged first content json

end ArgumentTag

mutual

/-- The value has the shape of the argument. Nothing is said about the texts in it. -/
inductive Argument.Shape : Reading → Argument → Json → Prop where
  | call {reading json content name arguments items} :
      ArgumentTag.call.Heads reading json content →
      content.IsRecord [("name", .string name), ("arguments", .array items)] →
      Argument.ListShape .lenient arguments items → Shape reading (.call name arguments) json
  | string {reading json content text} : ArgumentTag.string.Heads reading json content →
      content.IsRecord [("raw_text", .string text)] → Shape reading (.string text) json
  | number {reading json content digits} : ArgumentTag.number.Heads reading json content →
      content.IsRecord [("raw_text", .string digits)] → Shape reading (.number digits) json
  | boolean {reading json content value} : ArgumentTag.boolean.Heads reading json content →
      content.IsRecord [("value", .bool value)] → Shape reading (.boolean value) json

inductive Argument.ListShape : Reading → List Argument → List Json → Prop where
  | nil {reading} : ListShape reading [] []
  | cons {reading x json r items} : Argument.Shape reading x json → ListShape reading r items →
      ListShape reading (x :: r) (json :: items)

end

/-- The arguments of the outer call are read strictly, those inside them are not. -/
def Call.Shape (call : Call) (json : Json) : Prop :=
  ∃ items, json.IsRecord [("name", .string call.name), ("arguments", .array items)] ∧
    Argument.ListShape .strict call.arguments items

def MemberShapes (names : List String) (items : List Json) : Prop :=
  List.Forall₂ (fun name item => item.IsRecord [("raw_text", .string name)]) names items

def Expression.Shape (expression : Expression) (json : Json) : Prop :=
  ∃ function items, json.IsRecord [("function", function), ("members", .array items)] ∧
    expression.function.Shape function ∧ MemberShapes expression.members items

end ConfigExpr
