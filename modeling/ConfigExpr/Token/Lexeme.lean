import ConfigExpr.Text.Character

/-! The terminal symbols of the language, and the rules by which text is cut into them. The rules
differ by context, so a source has no token sequence of its own: the reader of the grammar chooses
a context for each token. `lexeme?_text` says that a lexeme is a non-empty first part of the
text. -/
namespace ConfigExpr

inductive TokenKind where
  | leftBracket
  | rightBracket
  | leftParen
  | rightParen
  | functionName
  | comma
  | quote
  | stringChars
  | number
  | trueWord
  | falseWord
  | dot
  | memberName
  | endOfInput
  deriving DecidableEq, Repr

namespace TokenKind

def all : List TokenKind :=
  [leftBracket, rightBracket, leftParen, rightParen, functionName, comma, quote, stringChars,
    number, trueWord, falseWord, dot, memberName, endOfInput]

def label : TokenKind → String
  | leftBracket => "'['"
  | rightBracket => "']'"
  | leftParen => "'('"
  | rightParen => "')'"
  | functionName => "function name"
  | comma => "','"
  | quote => "quote"
  | stringChars => "string characters"
  | number => "number"
  | trueWord => "'true'"
  | falseWord => "'false'"
  | dot => "'.'"
  | memberName => "member name"
  | endOfInput => "end of input"

def name : TokenKind → String
  | leftBracket => "LBracket"
  | rightBracket => "RBracket"
  | leftParen => "LParen"
  | rightParen => "RParen"
  | functionName => "FunctionName"
  | comma => "Comma"
  | quote => "Quote"
  | stringChars => "StringChars"
  | number => "Number"
  | trueWord => "True"
  | falseWord => "False"
  | dot => "Dot"
  | memberName => "MemberName"
  | endOfInput => "EndOfInput"

def ofName? (name : String) : Option TokenKind := all.find? (·.name == name)

theorem mem_all (kind : TokenKind) : kind ∈ all := by cases kind <;> decide

@[simp] theorem ofName?_name (kind : TokenKind) : ofName? kind.name = some kind := by
  cases kind <;> decide

end TokenKind

/-- `start` counts characters. Only the end of input has no text. -/
structure Token where
  kind : TokenKind
  text : String
  start : Nat
  deriving DecidableEq, Repr

inductive Found where
  | token (kind : TokenKind)
  | character (c : Char)
  | endOfInput
  deriving DecidableEq, Repr

/-! The rules, context by context. -/

inductive Context where
  /-- Outside argument lists. Only here can a member name start with `-`, `_` or a digit run that
  a letter or `_` continues. -/
  | topLevel
  /-- Where an argument may start. A digit run is always a number. -/
  | inArguments
  /-- After `.`, where every word is a member name. -/
  | afterDot
  /-- Between quotes, where blanks are content. -/
  | inString
  deriving DecidableEq, Repr

def punctuation? : Char → Option TokenKind
  | '[' => some .leftBracket
  | ']' => some .rightBracket
  | '(' => some .leftParen
  | ')' => some .rightParen
  | ',' => some .comma
  | '\x27' => some .quote
  | '.' => some .dot
  | _ => none

def wordKind (word : List Char) : TokenKind :=
  if word = trueSpelling then .trueWord
  else if word = falseSpelling then .falseWord
  else .functionName

/-- A word that no other rule at top level covers whole. -/
def startsMemberName : List Char → Bool
  | [] => false
  | c :: r =>
    c == '-' || c == '_' ||
      (c.isDigit && ((r.dropWhile Char.isDigit).head?.any fun n => n.isAlpha || n == '_'))

def sharedLexeme? : List Char → Option (TokenKind × List Char)
  | [] => none
  | c :: r =>
    match punctuation? c with
    | some kind => some (kind, [c])
    | none =>
      if c.isAlpha then
        let word := c :: r.takeWhile isWordChar
        some (wordKind word, word)
      else if c.isDigit then some (.number, c :: r.takeWhile Char.isDigit)
      else none

/-- The first token of a text that does not start with a skipped blank, or `none` if no rule of
the context fits. Every rule takes as much as it can. -/
def Context.lexeme? : Context → List Char → Option (TokenKind × List Char)
  | _, [] => none
  | .topLevel, c :: r =>
    if startsMemberName (c :: r) then some (.memberName, c :: r.takeWhile isWordChar)
    else sharedLexeme? (c :: r)
  | .inArguments, c :: r => sharedLexeme? (c :: r)
  | .afterDot, c :: r =>
    if isWordChar c then some (.memberName, c :: r.takeWhile isWordChar) else none
  | .inString, c :: r =>
    if c = quoteMark then some (.quote, [c])
    else some (.stringChars, c :: r.takeWhile (· != quoteMark))

def punctuationKinds : List TokenKind :=
  [.leftBracket, .rightBracket, .leftParen, .rightParen, .comma, .quote, .dot]

def Context.starters : Context → List TokenKind
  | .topLevel =>
    punctuationKinds ++ [.functionName, .trueWord, .falseWord, .number, .memberName, .endOfInput]
  | .inArguments =>
    punctuationKinds ++ [.functionName, .trueWord, .falseWord, .number, .endOfInput]
  | .afterDot => [.memberName, .endOfInput]
  | .inString => [.stringChars, .quote]

theorem sharedLexeme?_text {r text : List Char} {kind : TokenKind}
    (h : sharedLexeme? r = some (kind, text)) : text ≠ [] ∧ text <+: r := by
  unfold sharedLexeme? at h
  split at h
  · simp at h
  · have := List.takeWhile_prefix (l := ‹List Char›) isWordChar
    have := List.takeWhile_prefix (l := ‹List Char›) Char.isDigit
    split at h <;> grind

theorem lexeme?_text {context : Context} {r text : List Char} {kind : TokenKind}
    (h : context.lexeme? r = some (kind, text)) : text ≠ [] ∧ text <+: r := by
  unfold Context.lexeme? at h
  split at h
  · simp at h
  · split at h
    · have := List.takeWhile_prefix (l := ‹List Char›) isWordChar
      grind
    · exact sharedLexeme?_text h
  · exact sharedLexeme?_text h
  · have := List.takeWhile_prefix (l := ‹List Char›) isWordChar
    grind
  · have := List.takeWhile_prefix (l := ‹List Char›) (· != quoteMark)
    grind

theorem punctuation?_ne_endOfInput {c : Char} : punctuation? c ≠ some .endOfInput := by
  unfold punctuation?
  split <;> simp

/-- The end of input has no text, so no lexeme stands for it. -/
theorem lexeme?_kind {context : Context} {r text : List Char} {kind : TokenKind}
    (h : context.lexeme? r = some (kind, text)) : kind ≠ .endOfInput := by
  have shared : ∀ r, sharedLexeme? r = some (kind, text) → kind ≠ .endOfInput := by
    intro r h
    unfold sharedLexeme? at h
    split at h
    · simp at h
    · have := @punctuation?_ne_endOfInput ‹Char›
      have word : ∀ w, wordKind w ≠ .endOfInput := by
        intro w
        unfold wordKind
        split
        · simp
        · split <;> simp
      split at h <;> grind
  unfold Context.lexeme? at h
  split at h
  · simp at h
  · split at h
    · grind
    · exact shared _ h
  · exact shared _ h
  · grind
  · grind

end ConfigExpr
