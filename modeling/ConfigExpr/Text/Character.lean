import ConfigExpr.Text.Printable

/-! Characters and plain texts, before anything is made of them: the classes of characters that the
language tells apart, the spellings that a node may hold, the white space around a text, the
characters that mean something, and positions counted in characters and in bytes.
`charOffset?_eq_some_iff` says that the two counts name the same places. -/
namespace ConfigExpr

/-! The classes of the language hold ASCII characters only. -/

def quoteMark : Char := '\x27'

def isBlank (c : Char) : Bool := c == ' ' || c == '\t' || c == '\r' || c == '\n'

def isWordChar (c : Char) : Bool := c.isAlphanum || c == '-' || c == '_'

/-! The spellings that a node of the tree may hold. A text outside them could not be written back
as source that reads as the same node. -/

def trueSpelling : List Char := ['t', 'r', 'u', 'e']
def falseSpelling : List Char := ['f', 'a', 'l', 's', 'e']

/-- The two boolean literals have the shape of a function name, so they are left out. -/
def isFunctionName : List Char → Bool
  | [] => false
  | c :: r =>
    c.isAlpha && r.all isWordChar && c :: r != trueSpelling && c :: r != falseSpelling

def isNumber (text : List Char) : Bool := !text.isEmpty && text.all Char.isDigit

/-- A member name may start with any word character and may be spelled like a boolean literal. -/
def isMemberName (text : List Char) : Bool := !text.isEmpty && text.all isWordChar

def isStringText (text : List Char) : Bool := text.all (· != quoteMark)

/-! White space around a text, by the Unicode property White_Space. -/

def whiteSpaceRanges : CodeRanges :=
  [(0x9, 0xD), (0x20, 0x20), (0x85, 0x85), (0xA0, 0xA0), (0x1680, 0x1680), (0x2000, 0x200A),
   (0x2028, 0x2029), (0x202F, 0x202F), (0x205F, 0x205F), (0x3000, 0x3000)]

def isWhiteSpace (c : Char) : Bool := whiteSpaceRanges.holds c.toNat

theorem isWhiteSpace_of_isBlank {c : Char} (h : isBlank c) : isWhiteSpace c := by
  simp only [isBlank, Bool.or_eq_true, beq_iff_eq] at h
  rcases h with ((rfl | rfl) | rfl) | rfl <;> decide

def trimChars (text : List Char) : List Char :=
  ((text.dropWhile isWhiteSpace).reverse.dropWhile isWhiteSpace).reverse

def trimText (text : String) : String := String.ofList (trimChars text.toList)

/-! The characters of a source that mean something: all but the blanks outside string literals. -/

/-- The text starts inside or outside a string literal, and every quote changes sides. -/
def significantFrom : Bool → List Char → List Char
  | _, [] => []
  | inside, c :: r =>
    if c = quoteMark then c :: significantFrom (!inside) r
    else if isBlank c && !inside then significantFrom inside r
    else c :: significantFrom inside r

def significant (source : List Char) : List Char := significantFrom false source

def endsInside (inside : Bool) (text : List Char) : Bool :=
  (text.count quoteMark % 2 == 1) != inside

theorem endsInside_cons (inside : Bool) (c : Char) (text : List Char) :
    endsInside inside (c :: text) =
      endsInside (if c = quoteMark then !inside else inside) text := by
  unfold endsInside
  by_cases h : c = quoteMark
  · subst h
    rw [List.count_cons_self, if_pos rfl]
    rcases Nat.mod_two_eq_zero_or_one (text.count quoteMark) with hm | hm <;>
      cases inside <;> simp [Nat.add_mod, hm]
  · rw [List.count_cons_of_ne h, if_neg h]

theorem significantFrom_append (inside : Bool) (a b : List Char) :
    significantFrom inside (a ++ b) =
      significantFrom inside a ++ significantFrom (endsInside inside a) b := by
  induction a generalizing inside with
  | nil => simp [significantFrom, endsInside]
  | cons c r ih =>
    rw [endsInside_cons]
    simp only [List.cons_append, significantFrom]
    split
    · simp [ih]
    · split <;> simp [ih]

/-! Positions in a text, counted in characters and in the bytes of its UTF-8 form. -/

def byteOffset : List Char → Nat → Nat
  | _, 0 => 0
  | [], _ + 1 => 0
  | c :: r, position + 1 => c.utf8Size + byteOffset r position

/-- The number of characters in the first bytes of a text. There is none past the end and none
inside a character. -/
def charOffset? : List Char → Nat → Option Nat
  | [], byte => if byte = 0 then some 0 else none
  | c :: r, byte =>
    if byte = 0 then some 0
    else if c.utf8Size ≤ byte then (charOffset? r (byte - c.utf8Size)).map (· + 1)
    else none

theorem byteOffset_append (before behind : List Char) :
    byteOffset (before ++ behind) before.length = (String.ofList before).utf8ByteSize := by
  induction before with
  | nil => simp [byteOffset]
  | cons c before ih =>
    rw [List.cons_append, List.length_cons, byteOffset, ih, String.ofList_cons,
      String.utf8ByteSize_append, String.utf8ByteSize_singleton]

theorem charOffset?_byteOffset (text : List Char) (position : Nat) (h : position ≤ text.length) :
    charOffset? text (byteOffset text position) = some position := by
  induction text generalizing position with
  | nil =>
    obtain rfl : position = 0 := by simpa using h
    simp [charOffset?, byteOffset]
  | cons c r ih =>
    cases position with
    | zero => simp [charOffset?, byteOffset]
    | succ n =>
      have hc := Char.utf8Size_pos c
      have hr := ih n (by simpa using h)
      rw [byteOffset, charOffset?, if_neg (by omega), if_pos (by omega), Nat.add_sub_cancel_left,
        hr]
      rfl

theorem charOffset?_eq_some_iff {text : List Char} {byte position : Nat} :
    charOffset? text byte = some position ↔
      position ≤ text.length ∧ byteOffset text position = byte := by
  constructor
  · induction text generalizing byte position with
    | nil =>
      intro h
      obtain ⟨rfl, rfl⟩ : byte = 0 ∧ position = 0 := by
        simp only [charOffset?] at h
        split at h <;> simp_all
      exact ⟨Nat.le_refl 0, rfl⟩
    | cons c r ih =>
      intro h
      rw [charOffset?] at h
      split at h
      · next start =>
        obtain rfl := Option.some.inj h
        exact ⟨Nat.zero_le _, start.symm⟩
      · split at h
        · next whole =>
          obtain ⟨n, hn, rfl⟩ := Option.map_eq_some_iff.mp h
          obtain ⟨inside, bytes⟩ := ih hn
          refine ⟨Nat.succ_le_succ inside, ?_⟩
          rw [byteOffset, bytes, Nat.add_sub_cancel' whole]
        · contradiction
  · rintro ⟨inside, rfl⟩
    exact charOffset?_byteOffset text position inside

end ConfigExpr
