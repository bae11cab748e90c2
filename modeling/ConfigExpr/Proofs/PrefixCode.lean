import ConfigExpr.Text.Printable
import Mathlib.Tactic.SplitIfs

/-! Texts that are read in one way only, whatever comes after them. `displayText_cancels` says it
of texts between double quotes. -/
namespace ConfigExpr

/-- The codeword of a thing stands in front of no text that starts with the codeword of another
valid thing. -/
def Cancels {α : Type} (valid : α → Prop) (code : α → List Char) (x : α) : Prop :=
  ∀ y, valid y → ∀ r r', code x ++ r = code y ++ r' → x = y ∧ r = r'

section

variable {stop : Char} {r r' : List Char}

theorem append_stop_inj {a b : List Char} (ha : stop ∉ a) (hb : stop ∉ b)
    (same : a ++ stop :: r = b ++ stop :: r') : a = b ∧ r = r' := by
  have parts := congrArg (List.splitOn stop) same
  rw [List.splitOn_append_cons_self_of_not_mem ha, List.splitOn_append_cons_self_of_not_mem hb]
    at parts
  obtain rfl := (List.cons.inj parts).1
  exact ⟨rfl, (List.cons.inj (List.append_cancel_left same)).2⟩

/-- Codewords one after another, up to a character that starts none of them. -/
theorem Cancels.list {α : Type} {valid : α → Prop} {code : α → List Char} {xs ys : List α}
    (starts : ∀ x, valid x → ∃ c w, code x = c :: w ∧ c ≠ stop)
    (hx : ∀ x ∈ xs, valid x ∧ Cancels valid code x) (hy : ∀ y ∈ ys, valid y)
    (same : xs.flatMap code ++ stop :: r = ys.flatMap code ++ stop :: r') :
    xs = ys ∧ r = r' := by
  induction xs generalizing ys with
  | nil =>
    cases ys with
    | nil => exact ⟨rfl, (List.cons.inj same).2⟩
    | cons y ys =>
      obtain ⟨c, w, codeword, other⟩ := starts y (hy y List.mem_cons_self)
      rw [List.flatMap_cons, codeword] at same
      exact absurd (List.cons.inj same).1.symm other
  | cons x xs ih =>
    obtain ⟨valid_x, cancels⟩ := hx x List.mem_cons_self
    cases ys with
    | nil =>
      obtain ⟨c, w, codeword, other⟩ := starts x valid_x
      rw [List.flatMap_cons, codeword] at same
      exact absurd (List.cons.inj same).1 other
    | cons y ys =>
      rw [List.flatMap_cons, List.flatMap_cons, List.append_assoc, List.append_assoc] at same
      obtain ⟨rfl, tail⟩ := cancels y (hy y List.mem_cons_self) _ _ same
      obtain ⟨rfl, left⟩ := ih (fun z hz => hx z (List.mem_cons_of_mem x hz))
        (fun z hz => hy z (List.mem_cons_of_mem x hz)) tail
      exact ⟨rfl, left⟩

end

/-! Code points in braces. -/

theorem digitChar_inj : ∀ m < 16, ∀ n < 16, Nat.digitChar m = Nat.digitChar n → m = n := by
  decide

theorem toDigits_hex_inj {m n : Nat} (same : Nat.toDigits 16 m = Nat.toDigits 16 n) : m = n := by
  induction m using Nat.strongRecOn generalizing n with
  | ind m ih =>
    rcases Nat.lt_or_ge m 16 with hm | hm <;> rcases Nat.lt_or_ge n 16 with hn | hn
    · rw [Nat.toDigits_of_lt_base hm, Nat.toDigits_of_lt_base hn] at same
      exact digitChar_inj m hm n hn (List.cons.inj same).1
    · rw [Nat.toDigits_of_lt_base hm, Nat.toDigits_of_base_le (by decide) hn] at same
      have := congrArg List.length same
      have := Nat.length_toDigits_pos (b := 16) (n := n / 16)
      simp only [List.length_append, List.length_singleton] at *
      omega
    · rw [Nat.toDigits_of_lt_base hn, Nat.toDigits_of_base_le (by decide) hm] at same
      have := congrArg List.length same
      have := Nat.length_toDigits_pos (b := 16) (n := m / 16)
      simp only [List.length_append, List.length_singleton] at *
      omega
    · rw [Nat.toDigits_of_base_le (by decide) hm, Nat.toDigits_of_base_le (by decide) hn] at same
      obtain ⟨front, last⟩ := List.append_inj' same rfl
      have quotients := ih (m / 16) (by omega) front
      have remainders := digitChar_inj (m % 16) (by omega) (n % 16) (by omega)
        (List.cons.inj last).1
      omega

theorem not_mem_toDigits {c : Char} (other : ∀ m, c ≠ Nat.digitChar m) (n : Nat) :
    c ∉ Nat.toDigits 16 n := by
  induction n using Nat.strongRecOn with
  | ind n ih =>
    rw [Nat.toDigits_eq_if (by decide)]
    split
    · simp [other]
    · simp [other, ih (n / 16) (by omega)]

theorem brace_not_mem_toDigits (n : Nat) : '\x7d' ∉ Nat.toDigits 16 n :=
  not_mem_toDigits (fun _ => (Nat.digitChar_ne '\x7d' (by decide)).symm) n

/-! Characters between double quotes. -/

/-- Some characters have a letter behind a backslash, and some a code behind `\u`. -/
structure Escapes where
  letters : List (Char × Char)
  coded : Char → Prop
  code : Char → List Char
  distinct : ∀ p ∈ letters, ∀ q ∈ letters, p.2 = q.2 → p = q
  letter_ne : ∀ p ∈ letters, p.2 ≠ 'u'
  code_cancels : ∀ c, coded c → Cancels coded code c

namespace Escapes

inductive Form (escapes : Escapes) (c : Char) : List Char → Prop where
  | letter {letter} : (c, letter) ∈ escapes.letters → Form escapes c ['\\', letter]
  | code : escapes.coded c → Form escapes c ('\\' :: 'u' :: escapes.code c)
  | raw : c ≠ '\\' → c ≠ '"' → Form escapes c [c]

variable {escapes : Escapes}

theorem Form.cancels {c d : Char} {w w' r r' : List Char} (h : escapes.Form c w)
    (h' : escapes.Form d w') (same : w ++ r = w' ++ r') : c = d ∧ r = r' := by
  cases h with
  | letter mem =>
    cases h' with
    | letter mem' =>
      simp only [List.cons_append, List.nil_append, List.cons.injEq, true_and] at same
      exact ⟨congrArg Prod.fst (escapes.distinct _ mem _ mem' same.1), same.2⟩
    | code _ =>
      simp only [List.cons_append, List.nil_append, List.cons.injEq, true_and] at same
      exact absurd same.1 (escapes.letter_ne _ mem)
    | raw backslash _ => exact absurd (List.cons.inj same).1.symm backslash
  | code coded =>
    cases h' with
    | letter mem' =>
      simp only [List.cons_append, List.nil_append, List.cons.injEq, true_and] at same
      exact absurd same.1.symm (escapes.letter_ne _ mem')
    | code coded' =>
      simp only [List.cons_append, List.cons.injEq, true_and] at same
      exact escapes.code_cancels c coded d coded' r r' same
    | raw backslash _ => exact absurd (List.cons.inj same).1.symm backslash
  | raw backslash _ =>
    cases h' with
    | letter _ => exact absurd (List.cons.inj same).1 backslash
    | code _ => exact absurd (List.cons.inj same).1 backslash
    | raw _ _ => exact List.cons.inj same

/-- No form starts with the quote that ends the text. -/
theorem Form.exists_cons {c : Char} {w : List Char} (h : escapes.Form c w) :
    ∃ d r, w = d :: r ∧ d ≠ '"' := by
  cases h with
  | letter _ => exact ⟨_, _, rfl, by decide⟩
  | code _ => exact ⟨_, _, rfl, by decide⟩
  | raw _ quote => exact ⟨_, _, rfl, quote⟩

/-- Texts between double quotes, each character of them in its form. -/
theorem between_cancels {form : Char → List Char} (forms : ∀ c, escapes.Form c (form c))
    {text other r r' : List Char}
    (same : text.flatMap form ++ '"' :: r = other.flatMap form ++ '"' :: r') :
    text = other ∧ r = r' := by
  have character (c : Char) : True ∧ Cancels (fun _ => True) form c :=
    ⟨trivial, fun d _ _ _ same => (forms c).cancels (forms d) same⟩
  exact Cancels.list (fun c _ => (forms c).exists_cons) (fun c _ => character c)
    (fun _ _ => trivial) same

end Escapes

/-- Displays of characters. Every character could be given by its code. -/
def displayEscapes : Escapes where
  letters :=
    [('\x00', '0'), ('\t', 't'), ('\r', 'r'), ('\n', 'n'), ('\\', '\\'), ('"', '"')]
  coded _ := True
  code c := '\x7b' :: Nat.toDigits 16 c.toNat ++ ['\x7d']
  distinct := by decide
  letter_ne := by decide
  code_cancels := by
    intro c _ d _ r r' same
    simp only [List.cons_append, List.append_assoc, List.cons.injEq, true_and,
      List.nil_append] at same
    obtain ⟨digits, rest⟩ :=
      append_stop_inj (brace_not_mem_toDigits _) (brace_not_mem_toDigits _) same
    exact ⟨Char.toNat_inj.mp (toDigits_hex_inj digits), rest⟩

theorem form_displayChar (c : Char) : displayEscapes.Form c (displayChar '"' c) := by
  unfold displayChar
  split_ifs with h₀ h₁ h₂ h₃ h₄ h₅
  · exact .letter (h₀ ▸ by decide)
  · exact .letter (h₁ ▸ by decide)
  · exact .letter (h₂ ▸ by decide)
  · exact .letter (h₃ ▸ by decide)
  · rcases Bool.or_eq_true_iff.mp h₄ with h | h
    · exact .letter (of_decide_eq_true h ▸ by decide)
    · exact .letter (of_decide_eq_true h ▸ by decide)
  · have plain : c ≠ '\\' ∧ c ≠ '"' := by simpa using h₄
    exact .raw plain.1 plain.2
  · exact .code trivial

theorem displayText_cancels (text : String) :
    Cancels (fun _ => True) (fun text => (displayText text).toList) text := by
  intro other _ r r' same
  simp only [displayText, displayBetween, String.toList_ofList, List.cons_append,
    List.append_assoc, List.cons.injEq, true_and, List.nil_append] at same
  obtain ⟨texts, rest⟩ := Escapes.between_cancels form_displayChar same
  exact ⟨String.toList_inj.mp texts, rest⟩

end ConfigExpr
