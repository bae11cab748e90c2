import ConfigExpr.Token.Session

/-! A cursor that counts bytes. To read at a byte is to take the source apart there, and inside a
character that fails. `ByteCursor.Between` says of a cursor that it stands between two
characters. -/
namespace ConfigExpr

structure ByteToken where
  kind : TokenKind
  text : String
  start : Nat
  stop : Nat
  deriving DecidableEq, Repr

structure ByteCursor where
  source : String
  position : Nat
  deriving DecidableEq, Repr

namespace ByteCursor

def rest? (cursor : ByteCursor) : Option (List Char) :=
  (charOffset? cursor.source.toList cursor.position).map cursor.source.toList.drop

def textFrom? (start : Nat) (cursor : ByteCursor) : Option String := do
  let first ← charOffset? cursor.source.toList start
  let last ← charOffset? cursor.source.toList cursor.position
  if first ≤ last then some (String.ofList ((cursor.source.toList.take last).drop first)) else none

def advance (c : Char) (cursor : ByteCursor) : ByteCursor :=
  { cursor with position := cursor.position + c.utf8Size }

structure Between (cursor : ByteCursor) (before rest : List Char) : Prop where
  source : cursor.source.toList = before ++ rest
  position : cursor.position = (String.ofList before).utf8ByteSize

def past (text : List Char) (cursor : ByteCursor) : ByteCursor :=
  { cursor with position := cursor.position + (String.ofList text).utf8ByteSize }

theorem past_append (s t : List Char) (cursor : ByteCursor) :
    (cursor.past s).past t = cursor.past (s ++ t) := by
  simp only [past, String.ofList_append, String.utf8ByteSize_append, Nat.add_assoc]

theorem past_singleton (c : Char) (cursor : ByteCursor) : cursor.past [c] = cursor.advance c := by
  have bytes : (String.ofList [c]).utf8ByteSize = c.utf8Size := by
    rw [← String.singleton_eq_ofList, String.utf8ByteSize_singleton]
  rw [past, advance, bytes]

namespace Between

variable {cursor : ByteCursor} {before rest text r : List Char}

theorem charOffset?_eq (stands : cursor.Between before rest) :
    charOffset? cursor.source.toList cursor.position = some before.length := by
  rw [stands.source, stands.position, ← byteOffset_append before rest]
  exact charOffset?_byteOffset _ _ (by simp)

theorem rest?_eq (stands : cursor.Between before rest) : cursor.rest? = some rest := by
  rw [rest?, stands.charOffset?_eq, stands.source]
  simp

theorem past (stands : cursor.Between before (text ++ r)) :
    (cursor.past text).Between (before ++ text) r := by
  refine ⟨by rw [ByteCursor.past, stands.source, List.append_assoc], ?_⟩
  rw [ByteCursor.past, stands.position, String.ofList_append, String.utf8ByteSize_append]

theorem textFrom?_eq (stands : cursor.Between before (text ++ r)) :
    (cursor.past text).textFrom? cursor.position = some (String.ofList text) := by
  have first : charOffset? (cursor.past text).source.toList cursor.position = some before.length :=
    stands.charOffset?_eq
  have parts : ((cursor.past text).source.toList.take (before ++ text).length).drop before.length =
      text := by
    rw [stands.past.source, List.take_left, List.drop_left]
  simp only [textFrom?, first, stands.past.charOffset?_eq, Option.bind_eq_bind, Option.bind_some,
    parts]
  rw [if_pos (by simp)]

end Between

theorem exists_between {cursor : ByteCursor} {rest : List Char} (h : cursor.rest? = some rest) :
    ∃ before, cursor.Between before rest := by
  obtain ⟨n, hn, rfl⟩ := Option.map_eq_some_iff.mp h
  obtain ⟨inside, bytes⟩ := charOffset?_eq_some_iff.mp hn
  have whole := byteOffset_append (cursor.source.toList.take n) (cursor.source.toList.drop n)
  rw [List.take_append_drop, List.length_take, Nat.min_eq_left inside, bytes] at whole
  exact ⟨_, (List.take_append_drop n _).symm, whole⟩

example : rest? ⟨"é", 1⟩ = none := by decide

/-- Goes on to the first character that fails a test, reading at every character anew. -/
def eatWhile? (p : Char → Bool) (cursor : ByteCursor) : Option ByteCursor :=
  match _h : cursor.rest? with
  | none => none
  | some [] => some cursor
  | some (c :: _) => if p c then eatWhile? p (cursor.advance c) else some cursor
termination_by (cursor.rest?.getD []).length
decreasing_by
  obtain ⟨before, stands⟩ := exists_between _h
  have next : (cursor.past [c]).Between (before ++ [c]) _ := Between.past stands
  rw [past_singleton] at next
  simp [next.rest?_eq, _h]

theorem eatWhile?_eq {cursor : ByteCursor} {before rest : List Char}
    (stands : cursor.Between before rest) (p : Char → Bool) :
    cursor.eatWhile? p = some (cursor.past (rest.takeWhile p)) := by
  induction rest generalizing cursor before with
  | nil =>
    rw [eatWhile?]
    split <;> simp_all [stands.rest?_eq, past]
  | cons c r ih =>
    have next : (cursor.past [c]).Between (before ++ [c]) r := Between.past stands
    rw [eatWhile?]
    split
    · next h => simp [stands.rest?_eq] at h
    · next h => simp [stands.rest?_eq] at h
    · next d s h =>
      obtain ⟨rfl, rfl⟩ : c = d ∧ r = s := by simpa [stands.rest?_eq] using h
      rw [← past_singleton, ih next]
      cases hc : p c with
      | true => simp [hc, past_append]
      | false => simp [hc, past]

def token? (kind : TokenKind) (start : Nat) (cursor : ByteCursor) :
    Option (ByteCursor × Except ParseError ByteToken) := do
  let text ← cursor.textFrom? start
  return (cursor, .ok ⟨kind, text, start, cursor.position⟩)

def refusal? (context : Context) (found : Found) (cursor : ByteCursor) :
    Option (ByteCursor × Except ParseError ByteToken) := do
  let position ← charOffset? cursor.source.toList cursor.position
  return (cursor, .error (.lexical position found context.starters))

def string? (cursor : ByteCursor) : Option (ByteCursor × Except ParseError ByteToken) := do
  match ← cursor.rest? with
  | [] => cursor.refusal? .inString .endOfInput
  | c :: _ =>
    if c = quoteMark then
      token? .quote cursor.position { cursor with position := cursor.position + 1 }
    else (← cursor.eatWhile? (· != quoteMark)).token? .stringChars cursor.position

def rule? (context : Context) (c : Char) (here : ByteCursor) :
    Option (ByteCursor × Except ParseError ByteToken) := do
  if context = .afterDot then
    if isWordChar c then (← here.eatWhile? isWordChar).token? .memberName here.position
    else here.refusal? context (.character c)
  else match punctuation? c with
  | some kind => (here.advance c).token? kind here.position
  | none =>
    if c.isAlpha then
      let after ← here.eatWhile? isWordChar
      let word ← after.textFrom? here.position
      after.token? (wordKind word.toList) here.position
    else if c.isDigit then
      let after ← here.eatWhile? Char.isDigit
      let behind ← after.rest?
      if context = .topLevel ∧ behind.head?.any fun n => n.isAlpha || n == '_' then
        (← after.eatWhile? isWordChar).token? .memberName here.position
      else after.token? .number here.position
    else if context = .topLevel ∧ (c = '-' ∨ c = '_') then
      (← here.eatWhile? isWordChar).token? .memberName here.position
    else here.refusal? context (.character c)

def next? (context : Context) (cursor : ByteCursor) :
    Option (ByteCursor × Except ParseError ByteToken) := do
  if context = .inString then cursor.string?
  else
    let here ← cursor.eatWhile? isBlank
    match ← here.rest? with
    | [] => here.token? .endOfInput here.position
    | c :: _ => here.rule? context c

end ByteCursor

namespace Session

def byteCursor (session : Session) : ByteCursor := ⟨session.source, session.offset⟩

def inBytes (session : Session) (token : Token) : ByteToken :=
  ⟨token.kind, token.text, (session.span token).1, (session.span token).2⟩

end Session

end ConfigExpr
