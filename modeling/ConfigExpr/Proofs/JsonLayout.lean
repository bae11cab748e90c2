import ConfigExpr.Json.Basic
import ConfigExpr.Proofs.PrefixCode

/-! The layout of a JSON text: its spaces and line breaks outside strings. Strings are found from
their quotes and escapes alone, without the printer. `Json.pares_text` says that a text of a
value, in whatever layout, is its compact text with layout put in. -/
namespace ConfigExpr

/-! The forms in which a character stands between double quotes. -/

def jsonEscapes : Escapes where
  letters :=
    [('"', '"'), ('\\', '\\'), ('\x08', 'b'), ('\t', 't'), ('\n', 'n'), ('\x0c', 'f'), ('\r', 'r')]
  coded c := c.toNat < 0x20
  code c := ['0', '0', Json.hexDigit (c.toNat / 16), Json.hexDigit c.toNat]
  distinct := by decide
  letter_ne := by decide
  code_cancels := by
    intro c control d control' r r' same
    simp only [List.cons_append, List.nil_append, List.cons.injEq, true_and] at same
    obtain ⟨high, low, rest⟩ := same
    have highs := digitChar_inj _ (Nat.mod_lt _ (by decide)) _ (Nat.mod_lt _ (by decide)) high
    have lows := digitChar_inj _ (Nat.mod_lt _ (by decide)) _ (Nat.mod_lt _ (by decide)) low
    exact ⟨Char.toNat_inj.mp (by omega), rest⟩

theorem form_escapeChar (c : Char) : jsonEscapes.Form c (Json.escapeChar c) := by
  unfold Json.escapeChar
  split_ifs with h₀ h₁ h₂ h₃ h₄ h₅ h₆ h₇
  · subst h₀
    exact .letter (by decide)
  · subst h₁
    exact .letter (by decide)
  · subst h₂
    exact .letter (by decide)
  · subst h₃
    exact .letter (by decide)
  · subst h₄
    exact .letter (by decide)
  · subst h₅
    exact .letter (by decide)
  · subst h₆
    exact .letter (by decide)
  · exact .code h₇
  · exact .raw h₁ h₀

theorem hexDigit_ne {c : Char} (other : ∀ n < 16, c ≠ Nat.digitChar n) (n : Nat) :
    Json.hexDigit n ≠ c := by
  intro same
  exact other (n % 16) (Nat.mod_lt n (by decide)) same.symm

namespace Json

inductive Within where
  | layout
  | string
  /-- In a string, behind the backslash of an escape. -/
  | escape

def withoutLayoutFrom : Within → List Char → List Char
  | _, [] => []
  | .layout, c :: r =>
    if c = '"' then c :: withoutLayoutFrom .string r
    else if c = ' ' ∨ c = '\n' then withoutLayoutFrom .layout r
    else c :: withoutLayoutFrom .layout r
  | .string, c :: r =>
    if c = '"' then c :: withoutLayoutFrom .layout r
    else if c = '\\' then c :: withoutLayoutFrom .escape r
    else c :: withoutLayoutFrom .string r
  | .escape, c :: r => c :: withoutLayoutFrom .string r

def withoutLayout (text : String) : String :=
  String.ofList (withoutLayoutFrom .layout text.toList)

/-- One text without its layout is the other. No string is left open. -/
def Pares (text kept : String) : Prop :=
  ∀ r, withoutLayoutFrom .layout (text.toList ++ r) =
    kept.toList ++ withoutLayoutFrom .layout r

def bareWords : List String := ["null", "true", "false", "[]", "\x7b\x7d"]

namespace Pares

theorem append {a b a' b' : String} (ha : Pares a a') (hb : Pares b b') :
    Pares (a ++ b) (a' ++ b') := by
  intro r
  rw [String.toList_append, String.toList_append, List.append_assoc, ha, hb, List.append_assoc]

/-- Bare words and marks have no layout in them. -/
theorem bare {text : String} (h : ∀ c ∈ text.toList, c ≠ '"' ∧ c ≠ ' ' ∧ c ≠ '\n') :
    Pares text text := by
  intro r
  generalize text.toList = content at h
  induction content with
  | nil => rfl
  | cons c content ih =>
    obtain ⟨quote, space, feed⟩ := h c List.mem_cons_self
    have others := ih fun d mem => h d (List.mem_cons_of_mem c mem)
    rw [List.cons_append, withoutLayoutFrom, if_neg quote, if_neg (not_or.mpr ⟨space, feed⟩),
      others, List.cons_append]

theorem word {text : String} (h : text ∈ bareWords) : Pares text text := by
  have characters : ∀ word ∈ bareWords,
      word.toList.all fun c => c ≠ '"' ∧ c ≠ ' ' ∧ c ≠ '\n' := by decide
  apply bare
  simpa only [List.all_eq_true, decide_eq_true_eq] using characters text h

theorem mark {c : Char} (h : c ≠ '"' ∧ c ≠ ' ' ∧ c ≠ '\n') :
    Pares (String.ofList [c]) (String.ofList [c]) := by
  apply bare
  rw [String.toList_ofList]
  intro d mem
  exact List.mem_singleton.mp mem ▸ h

/-- In a string an escape never ends the string, and nothing is left out. -/
theorem withoutLayoutFrom_form {c : Char} {w : List Char} (h : jsonEscapes.Form c w)
    (r : List Char) : withoutLayoutFrom .string (w ++ r) = w ++ withoutLayoutFrom .string r := by
  cases h with
  | letter _ => rfl
  | code _ =>
    have quote := hexDigit_ne (c := '"') (by decide)
    have backslash := hexDigit_ne (c := '\\') (by decide)
    simp [jsonEscapes, withoutLayoutFrom, quote, backslash]
  | raw backslash quote => simp [withoutLayoutFrom, quote, backslash]

theorem withoutLayoutFrom_content (content r : List Char) :
    withoutLayoutFrom .string (content.flatMap escapeChar ++ r) =
      content.flatMap escapeChar ++ withoutLayoutFrom .string r := by
  induction content with
  | nil => rfl
  | cons c content ih =>
    rw [List.flatMap_cons, List.append_assoc, withoutLayoutFrom_form (form_escapeChar c), ih,
      List.append_assoc]

theorem quoted (text : String) : Pares (quoted text) (Json.quoted text) := by
  intro r
  rw [Json.quoted, String.toList_ofList, List.cons_append, List.cons_append, List.append_assoc,
    withoutLayoutFrom, if_pos rfl, withoutLayoutFrom_content]
  simp [withoutLayoutFrom]

theorem lineBreak (layout : Layout) (level : Nat) :
    Pares (layout.lineBreak level) (Layout.compact.lineBreak level) := by
  cases layout with
  | compact => exact fun _ => rfl
  | indented =>
    intro r
    have shown : (Layout.indented.lineBreak level).toList =
        '\n' :: List.replicate (2 * level) ' ' := String.toList_ofList
    rw [shown]
    -- The line feed goes first, then one space after another.
    change withoutLayoutFrom .layout (List.replicate (2 * level) ' ' ++ r) = _
    induction 2 * level with
    | zero => rfl
    | succ count ih => exact ih

theorem colon (layout : Layout) : Pares layout.colon Layout.compact.colon := by
  cases layout with
  | compact => exact fun _ => rfl
  | indented => exact fun _ => rfl

end Pares

mutual

/-- No number in it. Numbers are written bare, so nothing but what follows them ends them. -/
def isNumberless : Json → Bool
  | natural _ | number _ => false
  | array items => areNumberless items
  | object fields => fieldsNumberless fields
  | _ => true

def areNumberless : List Json → Bool
  | [] => true
  | x :: r => isNumberless x && areNumberless r

def fieldsNumberless : List (String × Json) → Bool
  | [] => true
  | (_, x) :: r => isNumberless x && fieldsNumberless r

end

section

variable (layout : Layout)

mutual

theorem pares_text : ∀ (json : Json) (level : Nat), json.isNumberless →
    Pares (json.text layout level) (json.text .compact level)
  | null, _, _ => .word (by decide : "null" ∈ bareWords)
  | bool false, _, _ => .word (by decide : "false" ∈ bareWords)
  | bool true, _, _ => .word (by decide : "true" ∈ bareWords)
  | string content, _, _ => .quoted content
  | array [], _, _ => .word (by decide : "[]" ∈ bareWords)
  | array (x :: r), level, h => by
    have items := pares_itemsText (x :: r) (level + 1) h
    have opened := (Pares.mark (c := '[') (by decide)).append items
    exact (opened.append (.lineBreak layout level)).append (.mark (c := ']') (by decide))
  | object [], _, _ => .word (by decide : "\x7b\x7d" ∈ bareWords)
  | object (x :: r), level, h => by
    have fields := pares_fieldsText (x :: r) (level + 1) h
    have opened := (Pares.mark (c := '\x7b') (by decide)).append fields
    exact (opened.append (.lineBreak layout level)).append (.mark (c := '\x7d') (by decide))

theorem pares_itemsText : ∀ (items : List Json) (level : Nat), areNumberless items →
    Pares (itemsText layout level items) (itemsText .compact level items)
  | [], _, _ => fun _ => rfl
  | [x], level, h => by
    simp only [areNumberless, Bool.and_true] at h
    exact (Pares.lineBreak layout level).append (pares_text x level h)
  | x :: y :: r, level, h => by
    rw [areNumberless, Bool.and_eq_true] at h
    have first := (Pares.lineBreak layout level).append (pares_text x level h.1)
    have others := pares_itemsText (y :: r) level h.2
    exact (first.append (.mark (c := ',') (by decide))).append others

theorem pares_fieldsText : ∀ (fields : List (String × Json)) (level : Nat),
    fieldsNumberless fields →
    Pares (fieldsText layout level fields) (fieldsText .compact level fields)
  | [], _, _ => fun _ => rfl
  | [(key, x)], level, h => by
    simp only [fieldsNumberless, Bool.and_true] at h
    have name := (Pares.lineBreak layout level).append (.quoted key)
    exact (name.append (.colon layout)).append (pares_text x level h)
  | (key, x) :: y :: r, level, h => by
    rw [fieldsNumberless, Bool.and_eq_true] at h
    have name := (Pares.lineBreak layout level).append (.quoted key)
    have first := (name.append (.colon layout)).append (pares_text x level h.1)
    have others := pares_fieldsText (y :: r) level h.2
    exact (first.append (.mark (c := ',') (by decide))).append others

end

end

end Json

end ConfigExpr
