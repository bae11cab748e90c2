import ConfigExpr.Proofs.ByteReading

/-! How the pulls of a session lay out its source, in bytes and whatever contexts they are made
under. `Session.Placed` is the invariant, `Placed.next` its step and `placed_afterCalls` the run. A
byte offset means something only between two characters, so pieces of a source are stated as splits
of it. -/
namespace ConfigExpr

def Slice (source : String) (first last : Nat) (text : String) : Prop :=
  ∃ before behind, source = before ++ text ++ behind ∧ before.utf8ByteSize = first ∧
    first + text.utf8ByteSize = last

theorem Slice.last_eq {source text : String} {first last : Nat}
    (h : Slice source first last text) : first + text.utf8ByteSize = last := by
  obtain ⟨before, behind, -, -, bytes⟩ := h
  exact bytes

theorem Slice.le {source text : String} {first last : Nat} (h : Slice source first last text) :
    first ≤ last :=
  h.last_eq ▸ Nat.le_add_right _ _

/-- A pull uses up the characters that its position then counts, and no others. -/
theorem Cursor.Pulls.moves {context : Context} {cursor after : Cursor}
    {result : Except Found Token} (pulls : Pulls context cursor after result) :
    ∃ moved, cursor.rest = moved ++ after.rest ∧
      after.position = cursor.position + moved.length := by
  cases pulls with
  | @token p w text r kind _ _ _ =>
    refine ⟨w ++ text, rfl, ?_⟩
    rw [List.length_append, Nat.add_assoc]
  | @endOfInput p w _ _ => exact ⟨w, (List.append_nil w).symm, rfl⟩
  | openString _ => exact ⟨[], rfl, rfl⟩
  | @stray p w c r _ _ _ _ => exact ⟨w, rfl, rfl⟩

/-- A failed pull stands in front of what it failed at, so it fails there again. -/
theorem Cursor.Pulls.again {context : Context} {cursor after : Cursor} {found : Found}
    (pulls : Pulls context cursor after (.error found)) :
    Pulls context after after (.error found) := by
  cases pulls with
  | openString inside => exact .openString inside
  | @stray p w c r outside _ hc none =>
    exact .stray (p := p + w.length) (w := []) outside (by simp [Grammar.Blanks]) hc none

def IsFinal : Except ParseError Token → Prop
  | .ok token => token.kind = .endOfInput
  | .error _ => True

def ByteCursor.afterCalls? (contexts : List Context) (cursor : ByteCursor) : Option ByteCursor :=
  contexts.foldlM (fun cursor context => (cursor.next? context).map Prod.fst) cursor

namespace Session

variable {context : Context} {session after : Session}

def afterCalls (session : Session) (contexts : List Context) : Session :=
  contexts.foldl (fun session context => (session.next context).1) session

def call (context : Context) (session : Session) (calls : Nat) :
    Session × Except ParseError Token :=
  (session.afterCalls (List.replicate calls context)).next context

/-- The rest of the text is what the position leaves of the source. -/
def Placed (session : Session) : Prop :=
  ∃ before, session.source.toList = before ++ session.cursor.rest ∧
    session.cursor.position = before.length

structure Gives (context : Context) (session after : Session) (token : Token) : Prop where
  order : session.offset ≤ (session.span token).1 ∧ (session.span token).1 ≤ (session.span token).2
  gap : ∃ skipped, Slice session.source session.offset (session.span token).1 skipped ∧
    context.Skips skipped.toList
  piece : Slice session.source (session.span token).1 (session.span token).2 token.text
  stop : (session.span token).2 = after.offset
  nonempty : token.kind ≠ .endOfInput → token.text ≠ ""
  atEnd : token.kind = .endOfInput →
    session.span token = (session.source.utf8ByteSize, session.source.utf8ByteSize)

structure Refuses (context : Context) (session after : Session) (error : ParseError) : Prop where
  gap : ∃ skipped, Slice session.source session.offset after.offset skipped ∧
    context.Skips skipped.toList
  position : ∃ before behind, session.source = before ++ behind ∧
    before.utf8ByteSize = after.offset ∧ error.position = before.length
  again : after.next context = (after, .error error)

theorem next_eq_ok_iff {token : Token} :
    session.next context = (after, .ok token) ↔
      after.source = session.source ∧
        Cursor.Pulls context session.cursor after.cursor (.ok token) := by
  obtain ⟨source, cursor⟩ := after
  rw [Cursor.pulls_iff]
  unfold next
  rcases session.cursor.next context with ⟨here, found | given⟩
  · simp
  · simp [eq_comm, and_assoc]

theorem next_eq_error_iff {error : ParseError} :
    session.next context = (after, .error error) ↔
      after.source = session.source ∧ ∃ found,
        Cursor.Pulls context session.cursor after.cursor (.error found) ∧
          error = .lexical after.cursor.position found context.starters := by
  obtain ⟨source, cursor⟩ := after
  simp only [Cursor.pulls_iff]
  unfold next
  rcases session.cursor.next context with ⟨here, found | given⟩
  · constructor
    · intro h
      simp only [Prod.mk.injEq, mk.injEq, Except.error.injEq] at h
      obtain ⟨⟨rfl, rfl⟩, rfl⟩ := h
      exact ⟨rfl, found, rfl, rfl⟩
    · rintro ⟨rfl, found', h, rfl⟩
      simp only [Prod.mk.injEq, Except.error.injEq] at h
      obtain ⟨rfl, rfl⟩ := h
      rfl
  · simp

theorem next_pulls (context : Context) (session : Session) :
    (session.next context).1.source = session.source ∧
      ∃ result, Cursor.Pulls context session.cursor (session.next context).1.cursor result := by
  rcases h : session.next context with ⟨after, error | token⟩
  · obtain ⟨same, found, pulls, -⟩ := next_eq_error_iff.mp h
    exact ⟨same, _, pulls⟩
  · obtain ⟨same, pulls⟩ := next_eq_ok_iff.mp h
    exact ⟨same, _, pulls⟩

theorem placed_start (source : String) : (start source).Placed :=
  ⟨[], rfl, rfl⟩

theorem Placed.next (placed : session.Placed) (context : Context) :
    (session.next context).1.Placed := by
  obtain ⟨before, whole, here⟩ := placed
  obtain ⟨same, result, pulls⟩ := next_pulls context session
  obtain ⟨moved, rest, position⟩ := pulls.moves
  refine ⟨before ++ moved, ?_, ?_⟩
  · rw [same, whole, rest, List.append_assoc]
  · rw [position, here, List.length_append]

theorem placed_afterCalls (placed : session.Placed) (contexts : List Context) :
    (session.afterCalls contexts).Placed := by
  induction contexts generalizing session with
  | nil => exact placed
  | cons context contexts ih => exact ih (placed.next context)

theorem byteCursor_afterCalls? (placed : session.Placed) (contexts : List Context) :
    session.byteCursor.afterCalls? contexts = some (session.afterCalls contexts).byteCursor := by
  induction contexts generalizing session with
  | nil => rfl
  | cons context contexts ih =>
    obtain ⟨before, whole, counted⟩ := placed
    have read := byteCursor_next? whole counted context
    rw [ByteCursor.afterCalls?, List.foldlM_cons, read]
    exact ih (Placed.next ⟨before, whole, counted⟩ context)

theorem source_afterCalls (session : Session) (contexts : List Context) :
    (session.afterCalls contexts).source = session.source := by
  induction contexts generalizing session with
  | nil => rfl
  | cons context contexts ih => exact (ih _).trans (next_pulls context session).1

namespace Placed

theorem byteCursor_next? (placed : session.Placed) (context : Context) :
    session.byteCursor.next? context =
      some ((session.next context).1.byteCursor, (session.next context).2.map session.inBytes) := by
  obtain ⟨before, whole, counted⟩ := placed
  exact Session.byteCursor_next? whole counted context

/-- Character counts behind the cursor turn into byte offsets that cut out the same text. -/
theorem slice (placed : session.Placed) (passed text rest : List Char) {first last : Nat}
    (split : session.cursor.rest = passed ++ text ++ rest)
    (first_eq : first = session.cursor.position + passed.length)
    (last_eq : last = first + text.length) :
    Slice session.source (byteOffset session.source.toList first)
      (byteOffset session.source.toList last) (String.ofList text) := by
  obtain ⟨before, whole, here⟩ := placed
  have chars : session.source.toList = before ++ passed ++ text ++ rest := by
    rw [whole, split]
    simp
  have source : session.source =
      String.ofList (before ++ passed) ++ String.ofList text ++ String.ofList rest := by
    rw [← String.ofList_append, ← String.ofList_append, ← chars, String.ofList_toList]
  have start : first = (before ++ passed).length := by simp [first_eq, here]
  have stop : last = (before ++ passed ++ text).length := by
    rw [last_eq, start, ← List.length_append]
  have start_bytes : byteOffset session.source.toList first =
      (String.ofList (before ++ passed)).utf8ByteSize := by
    rw [chars, start, List.append_assoc, byteOffset_append]
  have stop_bytes : byteOffset session.source.toList last =
      (String.ofList (before ++ passed ++ text)).utf8ByteSize := by
    rw [chars, stop, byteOffset_append]
  refine ⟨String.ofList (before ++ passed), String.ofList rest, source, start_bytes.symm, ?_⟩
  rw [start_bytes, stop_bytes, @String.ofList_append (before ++ passed),
    String.utf8ByteSize_append]

/-- The offset stands between two characters: those that the position counts and the rest. -/
theorem offset_splits (placed : session.Placed) :
    ∃ before behind, session.source = before ++ behind ∧
      before.utf8ByteSize = session.offset ∧ session.cursor.position = before.length ∧
      behind.toList = session.cursor.rest := by
  obtain ⟨before, whole, here⟩ := placed
  refine ⟨String.ofList before, String.ofList session.cursor.rest, ?_, ?_, ?_, ?_⟩
  · rw [← String.ofList_append, ← whole, String.ofList_toList]
  · rw [offset, whole, here, byteOffset_append]
  · rw [here, String.length_ofList]
  · exact String.toList_ofList

theorem offset_le (placed : session.Placed) :
    session.offset ≤ session.source.utf8ByteSize := by
  obtain ⟨before, behind, split, bytes, -⟩ := placed.offset_splits
  rw [← bytes, split, String.utf8ByteSize_append]
  exact Nat.le_add_right _ _

theorem gives (placed : session.Placed) {token : Token}
    (h : session.next context = (after, .ok token)) : session.Gives context after token := by
  obtain ⟨same, pulls⟩ := next_eq_ok_iff.mp h
  obtain ⟨source, here⟩ := after
  obtain ⟨_, cursor⟩ := session
  obtain rfl := same
  cases pulls with
  | @token p w text r kind skips spells ends =>
    have gap := placed.slice [] w (text ++ r) (List.append_assoc ..) rfl rfl
    have piece := placed.slice w text r rfl rfl rfl
    have stop := piece.last_eq
    rw [← stop] at piece
    exact {
      order := ⟨gap.le, Nat.le_add_right _ _⟩
      gap := ⟨_, gap, by rwa [String.toList_ofList]⟩
      piece := piece
      stop := stop
      nonempty := by
        intro _ empty
        exact spells.ne_nil (by simpa using congrArg String.toList empty)
      atEnd := fun last => absurd last spells.kind_ne_endOfInput }
  | @endOfInput p w outside blanks =>
    have gap := placed.slice [] w [] (List.append_nil w).symm rfl rfl
    have piece := placed.slice w [] [] (by simp) rfl rfl
    have bytes : byteOffset source.toList (p + w.length) = source.utf8ByteSize := by
      obtain ⟨before, whole, position⟩ := placed
      have length : p + w.length = source.toList.length := by
        rw [whole, List.length_append]
        exact congrArg (· + w.length) position
      have all := byteOffset_append source.toList []
      rwa [List.append_nil, String.ofList_toList, ← length] at all
    exact {
      order := ⟨gap.le, Nat.le_add_right _ _⟩
      gap := ⟨_, gap, by rw [String.toList_ofList]; exact blanks.skips outside⟩
      piece := piece
      stop := rfl
      nonempty := fun other => absurd rfl other
      atEnd := fun _ => Prod.ext bytes bytes }

theorem refuses (placed : session.Placed) {error : ParseError}
    (h : session.next context = (after, .error error)) : session.Refuses context after error := by
  have placed' : after.Placed := by
    have := placed.next context
    rwa [h] at this
  obtain ⟨same, found, pulls, rfl⟩ := next_eq_error_iff.mp h
  obtain ⟨w, r, rest, skips, position⟩ := pulls.error_position
  obtain ⟨before, behind, split, bytes, count, -⟩ := placed'.offset_splits
  have gap := placed.slice [] w r rest rfl position
  exact {
    gap := by
      refine ⟨String.ofList w, ?_, by rwa [String.toList_ofList]⟩
      unfold offset
      rwa [same]
    position := ⟨before, behind, same ▸ split, bytes, count⟩
    again := next_eq_error_iff.mpr ⟨rfl, found, pulls.again, rfl⟩ }

end Placed

theorem drain_of_final (final : IsFinal (session.next context).2) :
    session.drain context = [session.next context] := by
  unfold drain
  split
  · next h => rw [h]
  · next after token h =>
    rw [h] at final ⊢
    exact dif_pos final

theorem drain_of_not_final (going : ¬ IsFinal (session.next context).2) :
    session.drain context =
      session.next context :: (session.next context).1.drain context := by
  conv => lhs; unfold drain
  split
  · next h => simp [h, IsFinal] at going
  · next after token h =>
    rw [h] at going ⊢
    exact dif_neg going

theorem next_shortens_of_not_final (going : ¬ IsFinal (session.next context).2) :
    (session.next context).1.cursor.rest.length < session.cursor.rest.length := by
  rcases h : session.next context with ⟨after, error | token⟩
  · simp [h, IsFinal] at going
  · rw [h] at going
    exact next_shortens h going

/-- A drain makes one call after another up to the first that is final. Every call before that one
uses up a character of the rest. -/
theorem drain_eq (context : Context) (session : Session) :
    ∃ calls ≤ session.cursor.rest.length,
      session.drain context = (List.range (calls + 1)).map (session.call context) ∧
      ∀ n ≤ calls, IsFinal (session.call context n).2 ↔ n = calls := by
  induction length : session.cursor.rest.length using Nat.strongRecOn generalizing session
    with
  | ind size ih =>
    by_cases final : IsFinal (session.next context).2
    · refine ⟨0, Nat.zero_le _, drain_of_final final, ?_⟩
      intro n hn
      obtain rfl : n = 0 := Nat.le_zero.mp hn
      exact iff_of_true final rfl
    · have shorter := next_shortens_of_not_final final
      rw [length] at shorter
      obtain ⟨calls, most, rest, last⟩ := ih _ shorter (session.next context).1 rfl
      refine ⟨calls + 1, Nat.lt_of_le_of_lt most shorter, ?_, ?_⟩
      · rw [drain_of_not_final final, rest, List.range_succ_eq_map (n := calls + 1),
          List.map_cons, List.map_map]
        rfl
      · intro n hn
        cases n with
        | zero => exact iff_of_false final (Nat.succ_ne_zero calls).symm
        | succ n => exact (last n (Nat.le_of_succ_le_succ hn)).trans Nat.succ_inj.symm

end Session

/-- Wherever a session has come to by calls under any contexts, failed calls among them, it stands
between two characters of its source, and its next call gives the piece that starts there or fails
in front of it for good. A cursor that counts bytes comes to the same place and gives the same
answer. Calls under one context reach the end or an error before the characters run out. -/
theorem session_tiles (source : String) (contexts : List Context) (context : Context) :
    let session := (Session.start source).afterCalls contexts
    session.source = source ∧ session.offset ≤ source.utf8ByteSize ∧
    ByteCursor.afterCalls? contexts ⟨source, 0⟩ = some session.byteCursor ∧
    session.byteCursor.next? context =
      some ((session.next context).1.byteCursor, (session.next context).2.map session.inBytes) ∧
    (∃ before behind, source = before ++ behind ∧ before.utf8ByteSize = session.offset ∧
      ∃ calls ≤ behind.length,
        session.drain context = (List.range (calls + 1)).map (session.call context) ∧
        ∀ n ≤ calls, IsFinal (session.call context n).2 ↔ n = calls) ∧
    match session.next context with
    | (after, .ok token) => session.Gives context after token
    | (after, .error error) => session.Refuses context after error := by
  intro session
  have placed : session.Placed := Session.placed_afterCalls (Session.placed_start source) contexts
  have same : session.source = source := Session.source_afterCalls (Session.start source) contexts
  obtain ⟨before, behind, split, bytes, -, rest⟩ := placed.offset_splits
  obtain ⟨calls, most, drained, last⟩ := Session.drain_eq context session
  have first : (Session.start source).byteCursor = ⟨source, 0⟩ := by
    simp [Session.byteCursor, Session.offset, Session.start, Cursor.start, byteOffset]
  have walked := Session.byteCursor_afterCalls? (Session.placed_start source) contexts
  refine ⟨same, same ▸ placed.offset_le, first ▸ walked, placed.byteCursor_next? context,
    ⟨before, behind, same ▸ split, bytes, ?_⟩, ?_⟩
  · rw [← rest, String.length_toList] at most
    exact ⟨calls, most, drained, last⟩
  · rcases h : session.next context with ⟨after, error | token⟩
    · exact placed.refuses h
    · exact placed.gives h

/-- A failed call in front of a character of two bytes, then a string literal's text from there. -/
example :
    let session := Session.start " é 1"
    (session.next .topLevel).2 = .error (.lexical 1 (.character 'é') Context.topLevel.starters) ∧
      (session.afterCalls [.topLevel]).offset = 1 ∧
      (session.afterCalls [.topLevel, .topLevel, .inString]).offset = 5 :=
  ⟨rfl, by decide, by decide⟩

end ConfigExpr
