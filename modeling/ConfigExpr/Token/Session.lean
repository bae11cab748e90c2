import ConfigExpr.Parse.Error

/-! A place in the source and the token that starts there, for the reader of the grammar and for
sessions that pull tokens by hand. Reading never looks behind the cursor, and `next_shortens` says
that every token but the end of input uses up some of the text. -/
namespace ConfigExpr

/-- `position` counts the characters already read, `rest` holds those still to come. -/
structure Cursor where
  position : Nat
  rest : List Char
  deriving DecidableEq, Repr

namespace Cursor

def start (source : String) : Cursor := ⟨0, source.toList⟩

def advance (cursor : Cursor) (count : Nat) : Cursor :=
  ⟨cursor.position + count, cursor.rest.drop count⟩

/-- In a string literal blanks are content, so none is skipped there. -/
def skipBlanks (context : Context) (cursor : Cursor) : Cursor :=
  if context = .inString then cursor
  else cursor.advance (cursor.rest.takeWhile isBlank).length

/-- The next token under a context, and the cursor afterwards. Blanks are skipped also where no
token follows. The end of the text is a token, except in a string literal, which it cuts off. -/
def next (context : Context) (cursor : Cursor) : Cursor × Except Found Token :=
  let here := cursor.skipBlanks context
  match here.rest with
  | [] =>
    if context = .inString then (here, .error .endOfInput)
    else (here, .ok ⟨.endOfInput, "", here.position⟩)
  | c :: r =>
    match context.lexeme? (c :: r) with
    | some (kind, text) =>
      (here.advance text.length, .ok ⟨kind, String.ofList text, here.position⟩)
    | none => (here, .error (.character c))

theorem skipBlanks_length (context : Context) (cursor : Cursor) :
    (cursor.skipBlanks context).rest.length ≤ cursor.rest.length := by
  unfold skipBlanks
  split <;> simp [advance]

theorem next_length_le (context : Context) (cursor : Cursor) :
    (cursor.next context).1.rest.length ≤ cursor.rest.length := by
  have hs := skipBlanks_length context cursor
  unfold next
  simp only
  split
  · split <;> exact hs
  · split
    · simp only [advance, List.length_drop]
      omega
    · exact hs

theorem next_shortens {context : Context} {cursor after : Cursor} {token : Token}
    (h : cursor.next context = (after, .ok token)) (hk : token.kind ≠ .endOfInput) :
    after.rest.length < cursor.rest.length := by
  have hs := skipBlanks_length context cursor
  unfold next at h
  simp only at h
  split at h
  · split at h
    · simp at h
    · simp only [Prod.mk.injEq, Except.ok.injEq] at h
      exact absurd (h.2 ▸ rfl) hk
  · next c r hr =>
    split at h
    · next kind text hl =>
      simp only [Prod.mk.injEq] at h
      have hne := List.length_pos_iff.mpr (lexeme?_text hl).1
      rw [hr] at hs
      simp only [← h.1, advance, List.length_drop, hr]
      simp only [List.length_cons] at hs ⊢
      omega
    · simp at h

end Cursor

/-! Pulling tokens from a source by hand, each under a context of the caller's choice. A session
goes on after an error. Its offsets count bytes. -/

structure Session where
  source : String
  cursor : Cursor
  deriving DecidableEq, Repr

namespace Session

def start (source : String) : Session := ⟨source, .start source⟩

def offset (session : Session) : Nat :=
  byteOffset session.source.toList session.cursor.position

def span (session : Session) (token : Token) : Nat × Nat :=
  let first := byteOffset session.source.toList token.start
  (first, first + token.text.utf8ByteSize)

def charOffset? (session : Session) (byte : Nat) : Option Nat :=
  ConfigExpr.charOffset? session.source.toList byte

def next (context : Context) (session : Session) : Session × Except ParseError Token :=
  match session.cursor.next context with
  | (cursor, .ok token) => (⟨session.source, cursor⟩, .ok token)
  | (cursor, .error found) =>
    (⟨session.source, cursor⟩, .error (.lexical cursor.position found context.starters))

theorem next_shortens {context : Context} {session after : Session} {token : Token}
    (h : session.next context = (after, .ok token)) (hk : token.kind ≠ .endOfInput) :
    after.cursor.rest.length < session.cursor.rest.length := by
  unfold next at h
  split at h
  · next cursor token ht =>
    simp only [Prod.mk.injEq, Except.ok.injEq] at h
    obtain ⟨rfl, rfl⟩ := h
    exact Cursor.next_shortens ht hk
  · simp at h

/-- The answers of one context up to the end of input or the first error, that one included. -/
def drain (context : Context) (session : Session) : List (Session × Except ParseError Token) :=
  match _h : session.next context with
  | (after, .error error) => [(after, .error error)]
  | (after, .ok token) =>
    if _hk : token.kind = .endOfInput then [(after, .ok token)]
    else (after, .ok token) :: drain context after
termination_by session.cursor.rest.length
decreasing_by exact next_shortens _h _hk

end Session

end ConfigExpr
